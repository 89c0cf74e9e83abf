/-!
# Expression trees

An expression is a binary tree, possibly empty, with a number or a symbol at every node. Whether a symbol is
an operator, a variable or nothing at all is no property of the tree: that depends on the operators in
use and on bindings. An operator with one operand carries it on the left.
-/

namespace ExprCalculus

inductive Atom (ν : Type) where
  | number (value : ν)
  | symbol (name : String)
  deriving BEq, DecidableEq

/-- An expression tree. A missing child is the empty expression. -/
inductive Expr (ν : Type) where
  | empty
  | node (atom : Atom ν) (left right : Expr ν)
  deriving BEq, DecidableEq

inductive Side where
  | left
  | right
  deriving DecidableEq

namespace Side

/-- The side's name at the head of a sentence. -/
def title : Side → String
  | left => "Left"
  | right => "Right"

/-- The side's name inside a sentence. -/
def word : Side → String
  | left => "left"
  | right => "right"

end Side

inductive AtomKind where
  | number
  | symbol
  deriving DecidableEq

namespace AtomKind

def title : AtomKind → String
  | number => "Number"
  | symbol => "Symbol"

end AtomKind

namespace Atom

variable {ν : Type}

def kind : Atom ν → AtomKind
  | number _ => .number
  | symbol _ => .symbol

def number? : Atom ν → Option ν
  | number v => some v
  | symbol _ => none

def symbol? : Atom ν → Option String
  | number _ => none
  | symbol name => some name

end Atom

namespace Expr

variable {ν : Type}

instance : EmptyCollection (Expr ν) := ⟨empty⟩
instance : Inhabited (Expr ν) := ⟨empty⟩

def leaf (a : Atom ν) : Expr ν := node a empty empty

def number (v : ν) : Expr ν := leaf (.number v)

def symbol (name : String) : Expr ν := leaf (.symbol name)

def isEmpty : Expr ν → Bool
  | empty => true
  | node .. => false

def atom? : Expr ν → Option (Atom ν)
  | empty => none
  | node a _ _ => some a

def child : Expr ν → Side → Expr ν
  | empty, _ => empty
  | node _ l _, .left => l
  | node _ _ r, .right => r

def left (e : Expr ν) : Expr ν := e.child .left

def right (e : Expr ν) : Expr ν := e.child .right

def isLeaf : Expr ν → Bool
  | empty => false
  | node _ l r => l.isEmpty && r.isEmpty

def degree (e : Expr ν) : Nat := (!e.left.isEmpty).toNat + (!e.right.isEmpty).toNat

/-- The value of a number without children. -/
def literal? : Expr ν → Option ν
  | node (.number v) empty empty => some v
  | _ => none

def size : Expr ν → Nat
  | empty => 0
  | node _ l r => 1 + l.size + r.size

def depth : Expr ν → Nat
  | empty => 0
  | node _ l r => 1 + max l.depth r.depth

@[simp] theorem size_number (v : ν) : (number v).size = 1 := rfl

@[simp] theorem depth_number (v : ν) : (number v).depth = 1 := rfl

theorem literal?_eq_some_iff {e : Expr ν} {v : ν} : e.literal? = some v ↔ e = number v := by
  constructor
  · intro h
    unfold literal? at h
    split at h
    · simp_all [number, leaf]
    · simp at h
  · rintro rfl
    rfl

theorem literal?_eq_none_iff {e : Expr ν} : e.literal? = none ↔ ∀ v, e ≠ number v := by
  rw [Option.eq_none_iff_forall_ne_some]
  exact forall_congr' fun v => not_congr literal?_eq_some_iff

theorem isEmpty_iff {e : Expr ν} : e.isEmpty = true ↔ e = empty := by
  cases e <;> simp [isEmpty]

theorem size_pos {e : Expr ν} (h : e.isEmpty = false) : 0 < e.size := by
  cases e with
  | empty => simp [isEmpty] at h
  | node a l r => simp only [size]; omega

/-! ### Paths -/

abbrev Path := List Side

/-- The subtree to which a path leads, unless it leads nowhere. -/
def at? : Expr ν → Path → Option (Expr ν)
  | empty, _ => none
  | e@(node ..), [] => some e
  | node _ l _, .left :: path => l.at? path
  | node _ _ r, .right :: path => r.at? path

/-- The tree with the subtree at a path replaced; a path that leads nowhere changes nothing. -/
def replaceAt : Expr ν → Path → Expr ν → Expr ν
  | empty, _, _ => empty
  | node .., [], new => new
  | node a l r, .left :: path, new => node a (l.replaceAt path new) r
  | node a l r, .right :: path, new => node a l (r.replaceAt path new)

theorem at?_nil {e : Expr ν} (h : e.isEmpty = false) : e.at? [] = some e := by
  cases e with
  | empty => simp [isEmpty] at h
  | node a l r => rfl

/-- What was put at a path is found there. -/
theorem at?_replaceAt {e old new : Expr ν} {path : Path} (h : e.at? path = some old)
    (hnew : new.isEmpty = false) : (e.replaceAt path new).at? path = some new := by
  induction e generalizing path with
  | empty => simp [at?] at h
  | node a l r ihl ihr =>
    match path with
    | [] => exact at?_nil hnew
    | .left :: path => exact ihl h
    | .right :: path => exact ihr h

end Expr
end ExprCalculus
