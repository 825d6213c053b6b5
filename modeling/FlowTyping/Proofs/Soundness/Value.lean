import FlowTyping.Body.Basic

/-!
# Running expressions

What an expression does when it runs: it reads and writes a store of variables, its parts run from
left to right, and it yields a value. The rules cover literals, variables, arithmetic and counting,
comparisons, tests for `null`, and the forms that choose which of their parts run.
-/

namespace FlowTyping

/-- A `long` or a `double`. -/
inductive Number where
  | long (n : Int64)
  | double (x : Float)

namespace Number

/-- A whole number, as a `double` if it is too large for a `long`. -/
def ofInt (z : Int) : Number :=
  if Int64.minValue.toInt ≤ z ∧ z ≤ Int64.maxValue.toInt then .long (.ofInt z)
  else .double (.ofInt z)

/-- A number as a `double`. -/
def toFloat : Number → Float
  | .long n => n.toFloat
  | .double x => x

/-- Two `long`s are combined exactly, anything else as `double`s. -/
def combine (exact : Int → Int → Int) (rounded : Float → Float → Float) : Number → Number → Number
  | .long a, .long b => ofInt (exact a.toInt b.toInt)
  | a, b => .double (rounded a.toFloat b.toFloat)

/-- The sum, which is a `double` where a `long` would overflow. -/
def add : Number → Number → Number :=
  combine (· + ·) (· + ·)

/-- The difference, which is a `double` where a `long` would overflow. -/
def sub : Number → Number → Number :=
  combine (· - ·) (· - ·)

end Number

/-- The key of an array item. -/
inductive Key where
  | long (n : Int64)
  | string (s : String)
  deriving DecidableEq

/-- A value at run time. Objects are told apart by a number. -/
inductive Value where
  | null
  | bool (b : Bool)
  | long (n : Int64)
  | double (x : Float)
  | string (s : String)
  | array (items : List (Key × Value))
  | object (cls : Name) (id : Nat)
  | resource (id : Nat)

/-- What the rules leave open. -/
structure Runtime where
  /-- The number that a text reads as. -/
  number? : String → Option Number
  /-- What a text becomes by counting up or down. -/
  stepText : (increment : Bool) → String → String ⊕ Number
  /-- The order of values that are not both `long`s. -/
  less : Value → Value → Bool
  /-- Objects of the first class count as objects of the second one. -/
  IsA : Name → Name → Prop

namespace Value

/-- A number as a value. -/
def ofNumber : Number → Value
  | .long n => .long n
  | .double x => .double x

/-- The value that a literal stands for. -/
def ofLiteral : Literal → Value
  | .null => .null
  | .bool b => .bool b
  | .long n => .long n
  | .double x => .double x
  | .string s => .string s

/-- Whether a value is `null`. -/
def isNull : Value → Bool
  | .null => true
  | _ => false

/-- The value counts as true in a condition. -/
def truthy : Value → Bool
  | .null => false
  | .bool b => b
  | .long n => n != 0
  | .double x => !(x == 0)
  | .string s => s != "" && s != "0"
  | .array items => !items.isEmpty
  | .object _ _ => true
  | .resource _ => true

/-- The value is loosely equal to `null`. -/
def equalsNull : Value → Bool
  | .string s => s == ""
  | v => !v.truthy

/-- The keys of the left array win. -/
def unite (left right : List (Key × Value)) : List (Key × Value) :=
  left ++ right.filter fun item => left.all fun other => other.1 != item.1

variable (rt : Runtime)

/-- The number that a value stands for in arithmetic. -/
def number? : Value → Option Number
  | .null => some (.long 0)
  | .bool b => some (.long (if b then 1 else 0))
  | .long n => some (.long n)
  | .double x => some (.double x)
  | .string s => rt.number? s
  | _ => none

/-- Arithmetic on what two values stand for. -/
def arithmetic (f : Number → Number → Number) (a b : Value) : Option Value := do
  return ofNumber (f (← a.number? rt) (← b.number? rt))

/-- The union of two arrays, or the sum of two numbers. -/
def add : Value → Value → Option Value
  | .array a, .array b => some (.array (unite a b))
  | a, b => a.arithmetic rt Number.add b

/-- The difference of two values that read as numbers. -/
def sub (a b : Value) : Option Value :=
  a.arithmetic rt Number.sub b

/-- What `++` or `--` makes of a value. -/
def step (increment : Bool) : Value → Value
  | .null => if increment then .long 1 else .null
  | .long n => ofNumber (if increment then .add (.long n) (.long 1) else .sub (.long n) (.long 1))
  | .double x => .double (if increment then x + 1 else x - 1)
  | .string s => (rt.stepText increment s).elim .string ofNumber
  | v => v

/-- The order of values, which is that of numbers for two `long`s. -/
def less : Value → Value → Bool
  | .long a, .long b => decide (a < b)
  | a, b => rt.less a b

end Value

/-- What each variable holds, if it is set. -/
abbrev Store := VarId → Option Value

namespace Store

/-- A variable that is not set reads as `null`. -/
def read (σ : Store) (x : VarId) : Value :=
  (σ x).getD .null

/-- The store after an assignment. -/
def set (σ : Store) (x : VarId) (v : Value) : Store :=
  fun y => if y = x then some v else σ y

end Store

/-- What a binary operator makes of two values. Equality is decided for comparisons with `null`
only. -/
def BinaryOp.value? (rt : Runtime) : BinaryOp → Value → Value → Option Value
  | .add, a, b => a.add rt b
  | .sub, a, b => a.sub rt b
  | .less, a, b => some (.bool (a.less rt b))
  | .greater, a, b => some (.bool (b.less rt a))
  | .identical, a, b => some (.bool (a.isNull && b.isNull))
  | .notIdentical, a, b => some (.bool !(a.isNull && b.isNull))
  | .equal, a, b => some (.bool (a.equalsNull && b.equalsNull))
  | .notEqual, a, b => some (.bool !(a.equalsNull && b.equalsNull))
  | _, _, _ => none

/-- The outcome of the left operand that settles the whole condition. -/
def LogicalOp.settledBy : LogicalOp → Bool
  | .and => false
  | .or => true

/-- The constants that are part of the language, in any spelling. -/
def constantValue? (name : Name) : Option Value :=
  match name.key with
  | "true" => some (.bool true)
  | "false" => some (.bool false)
  | "null" => some .null
  | _ => none

namespace Body

/-- The expression is a variable or a literal. -/
def IsAtom (b : Body) (e : ExprId) : Prop :=
  (∃ x, b.exprs[e]? = some (.var x)) ∨ ∃ l, b.exprs[e]? = some (.literal l)

/-- The expression spells `null`. -/
def IsNull (b : Body) (e : ExprId) : Prop :=
  b.exprs[e]? = some (.literal .null) ∨
    ∃ name, b.exprs[e]? = some (.constant name) ∧ constantValue? name = some .null

/-- The operands that an operator is run on: order is for variables and literals, equality for
comparisons with `null`. -/
def Operands (b : Body) (left right : ExprId) : BinaryOp → Prop
  | .less | .greater => b.IsAtom left ∧ b.IsAtom right
  | .identical | .notIdentical | .equal | .notEqual => b.IsNull left ∨ b.IsNull right
  | _ => True

end Body

/-- From store `σ`, expression `e` of a body yields a value and leaves a store. -/
inductive Eval (rt : Runtime) (b : Body) : Store → ExprId → Value → Store → Prop
  | literal {σ e l} (h : b.exprs[e]? = some (.literal l)) : Eval rt b σ e (.ofLiteral l) σ
  | constant {σ e name v} (h : b.exprs[e]? = some (.constant name))
      (hv : constantValue? name = some v) : Eval rt b σ e v σ
  | var {σ e x} (h : b.exprs[e]? = some (.var x)) : Eval rt b σ e (σ.read x) σ
  | assign {σ σ₁ e target value x v} (h : b.exprs[e]? = some (.assign target value))
      (hx : b.exprs[target]? = some (.var x)) (hv : Eval rt b σ value v σ₁) :
      Eval rt b σ e v (σ₁.set x v)
  | compound {σ σ₁ e target value x w v} (h : b.exprs[e]? = some (.compound .add target value))
      (hx : b.exprs[target]? = some (.var x)) (hw : Eval rt b σ value w σ₁)
      (hv : (σ.read x).add rt w = some v) : Eval rt b σ e v (σ₁.set x v)
  | incDec {σ e target increment yieldsNew x v}
      (h : b.exprs[e]? = some (.incDec target increment yieldsNew))
      (hx : b.exprs[target]? = some (.var x)) (hv : (σ.read x).step rt increment = v) :
      Eval rt b σ e (if yieldsNew then v else σ.read x) (σ.set x v)
  | binary {σ σ₁ σ₂ e op left right u w v} (h : b.exprs[e]? = some (.binary op left right))
      (hops : b.Operands left right op) (hu : Eval rt b σ left u σ₁) (hw : Eval rt b σ₁ right w σ₂)
      (hv : op.value? rt u w = some v) : Eval rt b σ e v σ₂
  | isset {σ e operands r} (h : b.exprs[e]? = some (.isset operands))
      (hvars : ∀ c ∈ operands, ∃ x, b.exprs[c]? = some (.var x))
      (hr : r = true ↔
        ∀ c ∈ operands, ∀ x, b.exprs[c]? = some (.var x) → (σ.read x).isNull = false) :
      Eval rt b σ e (.bool r) σ
  | isBlank {σ e operand x} (h : b.exprs[e]? = some (.isBlank operand))
      (hx : b.exprs[operand]? = some (.var x)) : Eval rt b σ e (.bool !(σ.read x).truthy) σ
  | not {σ σ₁ e operand u} (h : b.exprs[e]? = some (.unary .not operand))
      (hu : Eval rt b σ operand u σ₁) : Eval rt b σ e (.bool !u.truthy) σ₁
  /-- The left operand settles the condition, and the right one does not run. -/
  | settled {σ σ₁ e op left right u} (h : b.exprs[e]? = some (.logical op left right))
      (hu : Eval rt b σ left u σ₁) (hop : u.truthy = op.settledBy) :
      Eval rt b σ e (.bool u.truthy) σ₁
  | unsettled {σ σ₁ σ₂ e op left right u w} (h : b.exprs[e]? = some (.logical op left right))
      (hu : Eval rt b σ left u σ₁) (hop : u.truthy = !op.settledBy)
      (hw : Eval rt b σ₁ right w σ₂) : Eval rt b σ e (.bool w.truthy) σ₂
  | ifTrue {σ σ₁ σ₂ e cond ifTrue ifFalse u v}
      (h : b.exprs[e]? = some (.ternary cond (some ifTrue) ifFalse)) (hu : Eval rt b σ cond u σ₁)
      (htrue : u.truthy = true) (hv : Eval rt b σ₁ ifTrue v σ₂) : Eval rt b σ e v σ₂
  | itself {σ σ₁ e cond ifFalse u} (h : b.exprs[e]? = some (.ternary cond none ifFalse))
      (hu : Eval rt b σ cond u σ₁) (htrue : u.truthy = true) : Eval rt b σ e u σ₁
  | ifFalse {σ σ₁ σ₂ e cond ifTrue? ifFalse u v}
      (h : b.exprs[e]? = some (.ternary cond ifTrue? ifFalse)) (hu : Eval rt b σ cond u σ₁)
      (hfalse : u.truthy = false) (hv : Eval rt b σ₁ ifFalse v σ₂) : Eval rt b σ e v σ₂
  | present {σ σ₁ e left right u} (h : b.exprs[e]? = some (.coalesce left right))
      (hu : Eval rt b σ left u σ₁) (hsome : u.isNull = false) : Eval rt b σ e u σ₁
  | absent {σ σ₁ σ₂ e left right u v} (h : b.exprs[e]? = some (.coalesce left right))
      (hu : Eval rt b σ left u σ₁) (hnull : u.isNull = true) (hv : Eval rt b σ₁ right v σ₂) :
      Eval rt b σ e v σ₂

namespace Eval

variable {rt : Runtime} {b : Body} {σ σ' : Store} {e : ExprId} {v : Value}

/-- A variable yields what it holds. -/
theorem of_var {x : VarId} (h : Eval rt b σ e v σ') (hx : b.exprs[e]? = some (.var x)) :
    v = σ.read x ∧ σ' = σ := by
  cases h <;> simp_all

/-- A literal has its own value and changes nothing. -/
theorem of_literal {l : Literal} (h : Eval rt b σ e v σ') (hl : b.exprs[e]? = some (.literal l)) :
    v = .ofLiteral l ∧ σ' = σ := by
  cases h <;> simp_all

/-- A variable or a literal changes nothing. -/
theorem of_atom (h : Eval rt b σ e v σ') (he : b.IsAtom e) : σ' = σ := by
  rcases he with ⟨x, hx⟩ | ⟨l, hl⟩
  · exact (h.of_var hx).2
  · exact (h.of_literal hl).2

theorem of_null (h : Eval rt b σ e v σ') (he : b.IsNull e) : v = .null ∧ σ' = σ := by
  rcases he with hl | ⟨name, hname, hnull⟩
  · exact h.of_literal hl
  · cases h <;> simp_all

end Eval

end FlowTyping
