import BuilderMigration.Proofs.Token.Stands
import BuilderMigration.Tree.Basic

/-! The expressions that builder code is made of, as they are written: paths, literals, calls, method
chains, closures, parentheses and plain blocks. A phrase keeps what its tree forgets, so it can be
printed; what no reader would take for the same phrase cannot be built. -/

namespace BuilderMigration

/-- The kind and the text of a token. -/
abbrev Spelling := TokenKind × String

def Token.spelling (t : Token) : Spelling := (t.kind, t.value)

/-- A punctuation mark. -/
def mark (v : String) : Spelling := (.punct, v)

/-- A word that the grammar knows. -/
def keyword (v : String) : Spelling := (.ident, v)

/-! ### Names and literals -/

structure Ident where
  text : String
  isWord : IsWord text

def Ident.spelling (i : Ident) : Spelling := (.ident, i.text)

/-- The words that begin something other than a path where an expression, a statement or a type is
expected. -/
def reserved : List String :=
  ["true", "false", "move", "async", "unsafe", "const", "if", "match", "loop", "while", "for", "let",
   "return", "break", "continue", "yield", "fn", "use", "struct", "enum", "impl", "trait", "mod",
   "type", "extern", "pub", "static", "dyn", "mut"]

/-- A name that the grammar leaves free. -/
structure FreeName where
  name : Ident
  free : name.text ∉ reserved

/-- A path of one or more names. -/
structure PathName where
  head : Ident
  free : head.text ∉ reserved
  tail : List Ident

def PathName.segments (p : PathName) : List String := p.head.text :: p.tail.map (·.text)

def tailSpellings : List Ident → List Spelling
  | [] => []
  | i :: is => mark "::" :: i.spelling :: tailSpellings is

def PathName.spellings (p : PathName) : List Spelling := p.head.spelling :: tailSpellings p.tail

/-- Texts that are literals of a kind: a whole token, or a truth value. -/
def LitKind.Spelt : LitKind → String → Prop
  | string, text => Lexeme.piece text.toList = .token .string text.length
  | char, text => Lexeme.piece text.toList = .token .char text.length
  | number, text => Lexeme.piece text.toList = .token .number text.length
  | bool, text => text = "true" ∨ text = "false"

instance : (kind : LitKind) → (text : String) → Decidable (kind.Spelt text)
  | .string, _ | .char, _ | .number, _ => inferInstanceAs (Decidable (_ = _))
  | .bool, _ => inferInstanceAs (Decidable (_ ∨ _))

structure Literal where
  kind : LitKind
  text : String
  spelt : kind.Spelt text

def LitKind.token : LitKind → TokenKind
  | string => .string
  | char => .char
  | number => .number
  | bool => .ident

def Literal.spelling (l : Literal) : Spelling := (l.kind.token, l.text)

/-! ### Types and bindings -/

/-- Lists between commas. -/
def commas (items : List (List Spelling)) : List Spelling := [mark ","].intercalate items

/-- The types of parameters and bindings. -/
inductive TypePhrase where
  | ref (mutable : Bool) (inner : TypePhrase)
  | path (p : PathName)
  | tuple (elems : List TypePhrase)

namespace TypePhrase

mutual

def ty : TypePhrase → Ty
  | ref mutable inner => .ref inner.ty mutable
  | path p => .path p.segments
  | tuple elems => .tuple (tys elems)

def tys : List TypePhrase → List Ty
  | [] => []
  | a :: as => a.ty :: tys as

end

/-- Behind the only element of a tuple stands a comma. -/
def lastComma : List TypePhrase → List Spelling
  | [_] => [mark ","]
  | _ => []

mutual

def spellings : TypePhrase → List Spelling
  | ref mutable inner => mark "&" :: ((if mutable then [keyword "mut"] else []) ++ inner.spellings)
  | path p => p.spellings
  | tuple elems => mark "(" :: (commas (eachSpelt elems) ++ lastComma elems ++ [mark ")"])

def eachSpelt : List TypePhrase → List (List Spelling)
  | [] => []
  | a :: as => a.spellings :: eachSpelt as

end

end TypePhrase

/-- A plain or mutable name with the type that it may have. -/
structure Binding where
  mutable : Bool
  name : Ident
  named : name.text ≠ "_"
  ty : Option TypePhrase

namespace Binding

def pattern (b : Binding) : Pattern := .binding ⟨0, 0, 0⟩ b.name.text b.mutable

def param (b : Binding) : Param := ⟨⟨0, 0, 0⟩, b.pattern, b.ty.map (·.ty), none⟩

def nameSpelt (b : Binding) : List Spelling :=
  (if b.mutable then [keyword "mut"] else []) ++ [b.name.spelling]

def typeSpelt (b : Binding) : List Spelling :=
  match b.ty with
  | none => []
  | some a => mark ":" :: a.spellings

def spellings (b : Binding) : List Spelling := b.nameSpelt ++ b.typeSpelt

/-- Parameters between bars; both bars are one token if there is none. -/
def barred : List Binding → List Spelling
  | [] => [mark "||"]
  | b :: bs => mark "|" :: (commas ((b :: bs).map (·.spellings)) ++ [mark "|"])

end Binding

/-! ### Expressions -/

mutual

/-- An expression. -/
inductive Phrase where
  | lit (l : Literal)
  | closure (captures : Bool) (params : List Binding) (body : Phrase)
  | operand (o : Operand)

/-- An expression that methods are called on. -/
inductive Operand where
  | path (p : PathName)
  | call (p : PathName) (args : List Phrase)
  | paren (e : Phrase)
  | method (receiver : Operand) (name : Ident) (awaits : name.text ≠ "await") (args : List Phrase)
  | block (lines : List Clause) (tail : Option Phrase)

/-- A statement: a binding with its value, if it has one, or an expression. -/
inductive Clause where
  | bind (b : Binding) (init : Option Phrase)
  | semi (e : Phrase)

end

mutual

/-- The tree of a phrase, placed nowhere. -/
def Phrase.tree : Phrase → Expr
  | .lit l => .lit ⟨0, 0, 0⟩ l.kind
  | .closure captures params body =>
    .closure ⟨0, 0, 0⟩ (params.map (·.param)) body.tree captures
  | .operand o => o.tree

def Operand.tree : Operand → Expr
  | .path p => .path ⟨0, 0, 0⟩ none p.segments
  | .call p args =>
    .compound ⟨0, 0, 0⟩ none .call (.path ⟨0, 0, 0⟩ none p.segments :: phraseTrees args)
  | .paren e => .compound ⟨0, 0, 0⟩ none .paren [e.tree]
  | .method receiver name _ args =>
    .methodCall ⟨0, 0, 0⟩ none receiver.tree name.text (phraseTrees args)
  | .block lines none => .block (.mk ⟨0, 0, 0⟩ .plain (clauseTrees lines) none)
  | .block lines (some e) => .block (.mk ⟨0, 0, 0⟩ .plain (clauseTrees lines) (some e.tree))

def Clause.tree : Clause → Stmt
  | .bind b none => .letStmt ⟨0, 0, 0⟩ b.pattern (b.ty.map (·.ty)) none none
  | .bind b (some e) => .letStmt ⟨0, 0, 0⟩ b.pattern (b.ty.map (·.ty)) (some e.tree) none
  | .semi e => .semi ⟨0, 0, 0⟩ e.tree

def phraseTrees : List Phrase → List Expr
  | [] => []
  | e :: es => e.tree :: phraseTrees es

def clauseTrees : List Clause → List Stmt
  | [] => []
  | s :: ss => s.tree :: clauseTrees ss

end

mutual

/-- The tokens of a phrase in order. -/
def Phrase.spellings : Phrase → List Spelling
  | .lit l => [l.spelling]
  | .closure captures params body =>
    (if captures then [keyword "move"] else []) ++ (Binding.barred params ++ body.spellings)
  | .operand o => o.spellings

def Operand.spellings : Operand → List Spelling
  | .path p => p.spellings
  | .call p args => p.spellings ++ mark "(" :: (commas (eachSpelt args) ++ [mark ")"])
  | .paren e => mark "(" :: (e.spellings ++ [mark ")"])
  | .method receiver name _ args =>
    receiver.spellings ++
      mark "." :: name.spelling :: mark "(" :: (commas (eachSpelt args) ++ [mark ")"])
  | .block lines none => mark "\x7b" :: (linesSpelt lines ++ [mark "\x7d"])
  | .block lines (some e) => mark "\x7b" :: (linesSpelt lines ++ (e.spellings ++ [mark "\x7d"]))

def Clause.spellings : Clause → List Spelling
  | .bind b none => keyword "let" :: (b.spellings ++ [mark ";"])
  | .bind b (some e) => keyword "let" :: (b.spellings ++ mark "=" :: (e.spellings ++ [mark ";"]))
  | .semi e => e.spellings ++ [mark ";"]

def eachSpelt : List Phrase → List (List Spelling)
  | [] => []
  | e :: es => e.spellings :: eachSpelt es

def linesSpelt : List Clause → List Spelling
  | [] => []
  | s :: ss => s.spellings ++ linesSpelt ss

end

/-- A phrase as text: its tokens with single spaces between them. -/
def Phrase.text (p : Phrase) : String := String.intercalate " " (p.spellings.map (·.2))

/-! ### Trees without places -/

def Pattern.unplaced : Pattern → Pattern
  | .binding _ name mutable => .binding ⟨0, 0, 0⟩ name mutable
  | .other _ => .other ⟨0, 0, 0⟩

def Param.unplaced (p : Param) : Param :=
  { p with span := ⟨0, 0, 0⟩, pattern := p.pattern.unplaced }

mutual

/-- The tree with no spans. -/
def Expr.unplaced : Expr → Expr
  | .path _ ty segments => .path ⟨0, 0, 0⟩ ty segments
  | .lit _ kind => .lit ⟨0, 0, 0⟩ kind
  | .methodCall _ ty receiver method args =>
    .methodCall ⟨0, 0, 0⟩ ty receiver.unplaced method (unplacedExprs args)
  | .closure _ params body captures =>
    .closure ⟨0, 0, 0⟩ (params.map (·.unplaced)) body.unplaced captures
  | .block b => .block b.unplaced
  | .macroCall _ path delimiter args => .macroCall ⟨0, 0, 0⟩ path delimiter (unplacedExprs args)
  | .compound _ ty kind parts => .compound ⟨0, 0, 0⟩ ty kind (unplacedExprs parts)

def Block.unplaced : Block → Block
  | .mk _ kind stmts tail =>
    .mk ⟨0, 0, 0⟩ kind (unplacedStmts stmts)
      (match tail with | none => none | some e => some e.unplaced)

def Stmt.unplaced : Stmt → Stmt
  | .letStmt _ pattern declared init otherwise =>
    .letStmt ⟨0, 0, 0⟩ pattern.unplaced declared
      (match init with | none => none | some e => some e.unplaced)
      (match otherwise with | none => none | some b => some b.unplaced)
  | .semi _ e => .semi ⟨0, 0, 0⟩ e.unplaced
  | .expr _ e => .expr ⟨0, 0, 0⟩ e.unplaced
  | .item _ i => .item ⟨0, 0, 0⟩ i.unplaced

def Item.unplaced : Item → Item
  | .fn _ name params body =>
    .fn ⟨0, 0, 0⟩ name (params.map (·.unplaced))
      (match body with | none => none | some b => some b.unplaced)
  | .use _ imports globs => .use ⟨0, 0, 0⟩ imports globs
  | .container _ kind items => .container ⟨0, 0, 0⟩ kind (unplacedItems items)
  | .other _ => .other ⟨0, 0, 0⟩

def unplacedExprs : List Expr → List Expr
  | [] => []
  | e :: es => e.unplaced :: unplacedExprs es

def unplacedStmts : List Stmt → List Stmt
  | [] => []
  | s :: ss => s.unplaced :: unplacedStmts ss

def unplacedItems : List Item → List Item
  | [] => []
  | i :: is => i.unplaced :: unplacedItems is

end

end BuilderMigration
