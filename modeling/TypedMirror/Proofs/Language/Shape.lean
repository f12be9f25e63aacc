import Mathlib.Logic.Relation
import TypedMirror.Query.Where

/-!
# The shapes of a SELECT statement

The language of the statements that can be read, told without a way of reading them:

    SELECT … FROM table (, table)* join* [WHERE [span (connector span)*]]
      [GROUP BY key (, key)*] [ORDER BY key [ASC | DESC] (, key [ASC | DESC])*]
      [LIMIT n [(, | OFFSET) n]] [OFFSET n] [;]

A shape relates tokens that start with it to the tokens behind it.  So a shape may ask what follows,
and one shape after another is the composition of the two.

* `Select` — the statements;
* `CutShort` — what ends before it comes to a table.
-/

namespace TypedMirror.Shape

/-! ## Names and tables -/

/-- A word that is not reserved, or a name between backticks that holds no brackets. -/
def IsName (t : Token) : Prop :=
  (t.kind = .word ∧ ∀ word ∈ Grammar.reserved, t.isKeyword word = false) ∨
    (t.kind = .quotedName ∧ '[' ∉ t.text ∧ ']' ∉ t.text)

/-- No dot stands at the head. -/
def NoDot (ts : List Token) : Prop := ∀ t ∈ ts.head?, t.isPunct '.' = false

/-- `name [[AS] alias]`. -/
inductive Table : List Token → List Token → Prop
  | bare {t : Token} {rest : List Token} (ht : IsName t) (hdot : NoDot rest) :
    Table (t :: rest) rest
  | named {t a : Token} {rest : List Token} (ht : IsName t) (ha : IsName a) :
    Table (t :: a :: rest) rest
  | namedAs {t k a : Token} {rest : List Token} (ht : IsName t) (hk : k.isKeyword "AS" = true)
    (ha : IsName a) : Table (t :: k :: a :: rest) rest

/-- `name [. name]`, as much as there is of it.  After the dot any word may stand. -/
inductive Column : List Token → List Token → Prop
  | plain {t : Token} {rest : List Token} (ht : IsName t) (hdot : NoDot rest) :
    Column (t :: rest) rest
  | qualified {t d n : Token} {rest : List Token} (ht : IsName t) (hd : d.isPunct '.' = true)
    (hn : n.kind = .word ∨ n.kind = .quotedName) : Column (t :: d :: n :: rest) rest

/-! ## Joins -/

def comparisons : List Text := ["=", "!=", "<>", "<", ">", "<=", ">=", "<=>"].map String.toList

/-- A comparison, `[NOT] LIKE` or `IS [NOT]`. -/
inductive Op : List Token → List Token → Prop
  | symbol {t : Token} {rest : List Token} (hk : t.kind = .operator) (ht : t.text ∈ comparisons) :
    Op (t :: rest) rest
  | like {t : Token} {rest : List Token} (ht : t.isKeyword "LIKE" = true) : Op (t :: rest) rest
  | notLike {n t : Token} {rest : List Token} (hn : n.isKeyword "NOT" = true)
    (ht : t.isKeyword "LIKE" = true) : Op (n :: t :: rest) rest
  | is {t : Token} {rest : List Token} (ht : t.isKeyword "IS" = true) : Op (t :: rest) rest
  | isNot {t n : Token} {rest : List Token} (ht : t.isKeyword "IS" = true)
    (hn : n.isKeyword "NOT" = true) : Op (t :: n :: rest) rest

/-- `column op column`. -/
inductive Comparison : List Token → List Token → Prop
  | intro {ts us vs rest : List Token} (hl : Column ts us) (ho : Op us vs) (hr : Column vs rest) :
    Comparison ts rest

/-- A comparison, or one in parentheses. -/
inductive Condition : List Token → List Token → Prop
  | bare {ts rest : List Token} (h : Comparison ts rest) : Condition ts rest
  | grouped {l r : Token} {ts rest : List Token} (hl : l.isPunct '(' = true)
    (h : Comparison ts (r :: rest)) (hr : r.isPunct ')' = true) : Condition (l :: ts) rest

/-- `JOIN`, behind what says of which kind it is. -/
inductive JoinWords : List Token → List Token → Prop
  | plain {t : Token} {rest : List Token} (ht : t.isKeyword "JOIN" = true) :
    JoinWords (t :: rest) rest
  | side {k t : Token} {rest : List Token}
    (hk : k.isKeyword "LEFT" = true ∨ k.isKeyword "RIGHT" = true)
    (ht : t.isKeyword "JOIN" = true) : JoinWords (k :: t :: rest) rest
  | outerSide {k o t : Token} {rest : List Token}
    (hk : k.isKeyword "LEFT" = true ∨ k.isKeyword "RIGHT" = true) (ho : o.isKeyword "OUTER" = true)
    (ht : t.isKeyword "JOIN" = true) : JoinWords (k :: o :: t :: rest) rest
  | kind {k t : Token} {rest : List Token}
    (hk : k.isKeyword "INNER" = true ∨ k.isKeyword "OUTER" = true ∨ k.isKeyword "CROSS" = true)
    (ht : t.isKeyword "JOIN" = true) : JoinWords (k :: t :: rest) rest

/-- `[kind] JOIN table ON condition`. -/
inductive Join : List Token → List Token → Prop
  | intro {o : Token} {ts us vs rest : List Token} (hj : JoinWords ts us) (ht : Table us (o :: vs))
    (ho : o.isKeyword "ON" = true) (hc : Condition vs rest) : Join ts rest

/-! ## Lists -/

/-- One or more, with a comma between neighbours. -/
inductive Commas (p : List Token → List Token → Prop) : List Token → List Token → Prop
  | one {ts rest : List Token} (h : p ts rest) : Commas p ts rest
  | more {c : Token} {ts us rest : List Token} (h : p ts (c :: us)) (hc : c.isPunct ',' = true)
    (hs : Commas p us rest) : Commas p ts rest

/-- A number or a column. -/
inductive Key : List Token → List Token → Prop
  | number {n : Token} {rest : List Token} (hn : n.kind = .number) : Key (n :: rest) rest
  | column {ts rest : List Token} (h : Column ts rest) : Key ts rest

/-- A key, behind which `directed` allows a direction. -/
inductive Item (directed : Bool) : List Token → List Token → Prop
  | bare {ts rest : List Token} (h : Key ts rest) : Item directed ts rest
  | sorted {d : Token} {ts rest : List Token} (hdirected : directed = true) (h : Key ts (d :: rest))
    (hd : d.isKeyword "ASC" = true ∨ d.isKeyword "DESC" = true) : Item directed ts rest

/-! ## The WHERE clause -/

def IsConnector (t : Token) : Prop :=
  t.isKeyword "AND" = true ∨ t.isOperator "&&" = true ∨ t.isKeyword "OR" = true ∨
    t.isKeyword "XOR" = true ∨ t.isOperator "||" = true

/-- A token that belongs to no span, for what it is or for what stands behind it. -/
def IsBoundary (t : Token) (behind : List Token) : Prop :=
  IsConnector t ∨ (∃ word ∈ ["LIMIT", "OFFSET", "HAVING", "FOR", "INTO"], t.isKeyword word = true) ∨
    ((t.isKeyword "GROUP" = true ∨ t.isKeyword "ORDER" = true) ∧
      ∃ u ∈ behind.head?, u.isKeyword "BY" = true) ∨
    (t.isPunct ';' = true ∧ behind = [])

/-- Tokens of which none is a boundary or the start of another statement. -/
structure IsSpan (s behind : List Token) : Prop where
  ne_nil : s ≠ []
  inside : ∀ a t b, s = a ++ t :: b → t.isKeyword "SELECT" = false ∧ ¬ IsBoundary t (b ++ behind)

/-- `span (connector span)*`. -/
inductive Spans : List Token → List Token → Prop
  | last {s rest : List Token} (hs : IsSpan s rest) : Spans (s ++ rest) rest
  | more {c : Token} {s us rest : List Token} (hs : IsSpan s (c :: us)) (hc : IsConnector c)
    (h : Spans us rest) : Spans (s ++ c :: us) rest

/-- `[WHERE [spans]]`. -/
inductive Where : List Token → List Token → Prop
  | absent (ts : List Token) : Where ts ts
  | empty {k : Token} {rest : List Token} (hk : k.isKeyword "WHERE" = true) : Where (k :: rest) rest
  | spans {k : Token} {ts rest : List Token} (hk : k.isKeyword "WHERE" = true) (h : Spans ts rest) :
    Where (k :: ts) rest

/-! ## Sorting and limits -/

/-- `[word BY item (, item)*]`. -/
inductive By (word : String) (directed : Bool) : List Token → List Token → Prop
  | absent (ts : List Token) : By word directed ts ts
  | items {k b : Token} {ts rest : List Token} (hk : k.isKeyword word = true)
    (hb : b.isKeyword "BY" = true) (h : Commas (Item directed) ts rest) :
    By word directed (k :: b :: ts) rest

/-- `[LIMIT n [(, | OFFSET) n]]`. -/
inductive Limit : List Token → List Token → Prop
  | absent (ts : List Token) : Limit ts ts
  | one {k n : Token} {rest : List Token} (hk : k.isKeyword "LIMIT" = true)
    (hn : n.kind = .number) : Limit (k :: n :: rest) rest
  | two {k n s m : Token} {rest : List Token} (hk : k.isKeyword "LIMIT" = true)
    (hn : n.kind = .number) (hs : s.isPunct ',' = true ∨ s.isKeyword "OFFSET" = true)
    (hm : m.kind = .number) : Limit (k :: n :: s :: m :: rest) rest

/-- `[OFFSET n]`. -/
inductive Offset : List Token → List Token → Prop
  | absent (ts : List Token) : Offset ts ts
  | rows {k n : Token} {rest : List Token} (hk : k.isKeyword "OFFSET" = true)
    (hn : n.kind = .number) : Offset (k :: n :: rest) rest

/-- Nothing, or one semicolon. -/
def Ends (ts : List Token) : Prop := ts = [] ∨ ∃ t, ts = [t] ∧ t.isPunct ';' = true

/-- All that may stand behind the WHERE clause. -/
inductive Closing : List Token → Prop
  | intro {ts as bs cs ds : List Token} (hg : By "GROUP" false ts as) (ho : By "ORDER" true as bs)
    (hl : Limit bs cs) (hf : Offset cs ds) (h : Ends ds) : Closing ts

/-! ## Statements -/

/-- How many parentheses are open behind some tokens, `depth` being open before them.  One that
closes nothing does not count. -/
def depthAfter (depth : Nat) (ts : List Token) : Nat :=
  ts.foldl (fun d t => if t.isPunct '(' then d + 1 else if t.isPunct ')' then d - 1 else d) depth

/-- What may stand in front of the `FROM` of a statement, that is, of the first one outside all
parentheses. -/
structure Skipped (depth : Nat) (A : List Token) : Prop where
  noSelect : ∀ t ∈ A, t.isKeyword "SELECT" = false
  noFrom : ∀ a t b, A = a ++ t :: b → t.isKeyword "FROM" = true → depthAfter depth a ≠ 0
  closed : depthAfter depth A = 0

/-- All that stands behind the `FROM`. -/
inductive Body : List Token → Prop
  | intro {ts as bs cs : List Token} (ht : Commas Table ts as)
    (hj : Relation.ReflTransGen Join as bs) (hw : Where bs cs) (h : Closing cs) : Body ts

/-- A whole statement. -/
inductive Select : List Token → Prop
  | intro {s f : Token} {A ts : List Token} (hs : s.isKeyword "SELECT" = true) (hA : Skipped 0 A)
    (hf : f.isKeyword "FROM" = true) (h : Body ts) : Select (s :: (A ++ f :: ts))

/-- A statement that ends behind its first word or behind its `FROM`. -/
inductive CutShort : List Token → Prop
  | first {s : Token} {ts : List Token} (hs : s.isKeyword "SELECT" = true) (h : Ends ts) :
    CutShort (s :: ts)
  | behindFrom {s f : Token} {A ts : List Token} (hs : s.isKeyword "SELECT" = true)
    (hA : Skipped 0 A) (hf : f.isKeyword "FROM" = true) (h : Ends ts) :
    CutShort (s :: (A ++ f :: ts))

end TypedMirror.Shape
