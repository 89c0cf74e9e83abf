import ExprCalculus.Expr.Notation
import ExprCalculus.Proofs.Decimal.FloatText
import ExprCalculus.Proofs.Expr.Grammar

/-!
# Writing and reading back

What is read from the bracket notation of a tree is the same tree with every atom replaced by what the
reader makes of its text, provided that the tree has a bracket notation at all and the texts of its atoms
are tokens. So a tree comes back unchanged if its atoms do. All numbers do but negative infinity, which
comes back as a symbol.
-/

namespace ExprCalculus

open Reader

section Generic

variable {ν : Type} [Numeral ν]

/-- The atom that the reader finds in the text of an atom. -/
def Atom.reread (a : Atom ν) : Atom ν := atomOfToken a.text.toList

/-- The text of the atom is one token. -/
def Atom.IsSpelled (a : Atom ν) : Prop := IsToken a.text.toList

namespace Expr

def mapAtoms (f : Atom ν → Atom ν) : Expr ν → Expr ν
  | empty => empty
  | node a l r => node (f a) (l.mapAtoms f) (r.mapAtoms f)

omit [Numeral ν] in
theorem mapAtoms_eq_self_iff {f : Atom ν → Atom ν} {e : Expr ν} :
    e.mapAtoms f = e ↔ e.EveryAtom fun a => f a = a := by
  induction e with
  | empty => simp [mapAtoms]
  | node a l r ihl ihr => simp only [mapAtoms, node.injEq, ihl, ihr, everyAtom_node]

omit [Numeral ν] in
theorem depth_mapAtoms (f : Atom ν → Atom ν) (e : Expr ν) : (e.mapAtoms f).depth = e.depth := by
  induction e with
  | empty => rfl
  | node a l r ihl ihr => simp only [mapAtoms, depth, ihl, ihr]

/-! ### What is written -/

theorem written_brackets {e : Expr ν} (hne : e.isEmpty = false) (hshape : e.Shapely)
    (hatoms : e.EveryAtom Atom.IsSpelled) : Written e.brackets.toList (e.mapAtoms Atom.reread) := by
  induction e with
  | empty => cases hne
  | node a l r ihl ihr =>
    obtain ⟨hright, hl, hr⟩ := hshape
    obtain ⟨ha, hlatoms, hratoms⟩ := everyAtom_node.1 hatoms
    have hdenotes : Denotes a.text.toList a.reread := atomOfToken_iff.2 rfl
    have hnone : Blanks [] := by
      intro c hc
      cases hc
    have hblank : Blanks [' '] := by
      intro c hc
      rw [List.mem_singleton.1 hc]
      rfl
    cases l with
    | empty =>
      have hrempty : r = empty := isEmpty_iff.1 (hright rfl)
      subst hrempty
      have hwritten := Written.leaf hnone ha hdenotes hnone
      simpa [brackets, mapAtoms, leaf] using hwritten
    | node b l₁ l₂ =>
      have hlwritten := ihl rfl hl hlatoms
      cases r with
      | empty =>
        have hwritten := Written.unary hblank hlwritten hblank ha hdenotes hblank
        simpa [brackets, mapAtoms] using hwritten
      | node c r₁ r₂ =>
        have hrwritten := ihr rfl hr hratoms
        have hwritten := Written.binary hblank hlwritten hblank ha hdenotes hblank hrwritten hblank
        simpa [brackets, mapAtoms] using hwritten

/-! ### What is read -/

theorem read_eq_ok_of_written {text : String} {e : Expr ν} (h : Written text.toList e) (hdepth : e.depth ≤ 512) :
    Expr.read text = .ok e := by
  have hnode : readNode nestingLimit (text.toList ++ []) = .ok (e, []) := readNode_of_written h hdepth []
  have hskip := skipBlanks_append (s := []) (by simp [Blanks]) (h.stopsAt_isBlank [])
  rw [List.nil_append, List.append_nil] at hskip
  rw [List.append_nil] at hnode
  have hall : readAll text.toList = .ok e := readAll_eq_ok_iff.2 ⟨[], by rw [hskip, hnode], by simp [Blanks]⟩
  simp only [Expr.read, hall, Except.mapError]

theorem written_of_read {text : String} {e : Expr ν} (h : Expr.read text = .ok e) :
    ∃ body, Written body e ∧ e.depth ≤ 512 := by
  unfold Expr.read at h
  cases hall : (readAll text.toList : Except Stop (Expr ν)) with
  | error stop =>
    rw [hall] at h
    cases h
  | ok e' =>
    rw [hall] at h
    cases h
    obtain ⟨rest, hread, _⟩ := readAll_eq_ok_iff.1 hall
    obtain ⟨body, _, hwritten, hdepth⟩ := written_of_readNode hread
    exact ⟨body, hwritten, hdepth⟩

/-- Every tree with a bracket notation of tokens is read as that tree with its atoms read again. -/
theorem read_brackets_reread {e : Expr ν} (hne : e.isEmpty = false) (hshape : e.Shapely)
    (hdepth : e.depth ≤ 512) (hatoms : e.EveryAtom Atom.IsSpelled) :
    Expr.read e.brackets = .ok (e.mapAtoms Atom.reread) :=
  read_eq_ok_of_written (written_brackets hne hshape hatoms) (by rwa [depth_mapAtoms])

theorem shapely_of_written {text : List Char} {e : Expr ν} (h : Written text e) : e.Shapely := by
  induction h with
  | leaf hs htoken ha ht => exact ⟨fun _ => rfl, trivial, trivial⟩
  | unary hs hl hy htoken ha ht ih => exact ⟨fun _ => rfl, ih, trivial⟩
  | binary hs hl hy htoken ha ht hr hz ihl ihr =>
    refine ⟨?_, ihl, ihr⟩
    intro hempty
    rw [hl.isEmpty] at hempty
    cases hempty

/-- The atoms of a written tree are denoted by tokens. -/
theorem everyAtom_of_written {text : List Char} {e : Expr ν} (h : Written text e) :
    e.EveryAtom fun a => ∃ token, IsToken token ∧ Denotes token a := by
  induction h with
  | leaf hs htoken ha ht => exact everyAtom_node.2 ⟨⟨_, htoken, ha⟩, everyAtom_empty, everyAtom_empty⟩
  | unary hs hl hy htoken ha ht ih => exact everyAtom_node.2 ⟨⟨_, htoken, ha⟩, ih, everyAtom_empty⟩
  | binary hs hl hy htoken ha ht hr hz ihl ihr => exact everyAtom_node.2 ⟨⟨_, htoken, ha⟩, ihl, ihr⟩

end Expr

end Generic

/-! ### Binary64 atoms -/

theorem plain_of_isDigit {c : Char} (h : Decimal.isDigit c = true) :
    Text.isBlank c = false ∧ c ≠ '\x7b' ∧ c ≠ '\x7d' := by
  have hrange : 48 ≤ c.toNat ∧ c.toNat ≤ 57 := by
    simp only [Decimal.isDigit, Bool.and_eq_true, decide_eq_true_eq] at h
    exact h
  refine ⟨?_, ?_, ?_⟩
  · rw [Bool.eq_false_iff]
    intro hblank
    obtain ⟨r, hr, hlow, hhigh⟩ := Text.inRanges_iff.1 hblank
    simp only [Text.blankRanges, List.mem_cons, List.not_mem_nil, or_false] at hr
    rcases hr with rfl | rfl | rfl | rfl | rfl | rfl | rfl | rfl | rfl | rfl <;> simp only at hlow hhigh <;> omega
  · rintro rfl
    exact absurd hrange.2 (by decide)
  · rintro rfl
    exact absurd hrange.2 (by decide)

theorem isToken_iff {text : List Char} :
    IsToken text ↔ text.isEmpty = false ∧ (text.all fun c => !endsToken c) = true := by
  simp only [IsToken, List.all_eq_true, Bool.not_eq_true', endsToken_eq_false_iff]
  simp

instance (text : List Char) : Decidable (IsToken text) := decidable_of_iff _ isToken_iff.symm

theorem isToken_floatText (x : Float) : IsToken (Decimal.floatText x).toList := by
  by_cases hfin : x.isFinite = true
  · obtain ⟨q, hspells, _⟩ := Decimal.spells_magnitudeText hfin
    rw [Decimal.floatText_of_isFinite hfin]
    obtain ⟨c, rest, htext, _⟩ := hspells.head
    refine ⟨by rw [htext]; simp, ?_⟩
    intro d hd
    rcases List.mem_append.1 hd with hsign | hd
    · have hminus : d = '-' := by
        split_ifs at hsign
        · exact List.mem_singleton.1 hsign
        · cases hsign
      rw [hminus]
      decide
    · rcases hspells.plain d hd with hdigit | rfl
      · exact plain_of_isDigit hdigit
      · decide
  · have hnan : (Decimal.floatText (Float.ofBits 0x7ff8000000000000)).toList = ['N', 'a', 'N'] := rfl
    have hpos : (Decimal.floatText Decimal.infinity).toList = ['i', 'n', 'f'] := rfl
    have hneg : (Decimal.floatText (-Decimal.infinity)).toList = ['-', 'i', 'n', 'f'] := rfl
    rcases Decimal.not_isFinite_cases hfin with rfl | rfl | rfl
    · rw [hnan]
      decide
    · rw [hpos]
      decide
    · rw [hneg]
      decide

/-! ### Binary64 trees -/

theorem isSpelled_of_denotes {token : List Char} {a : Atom Float} (htoken : IsToken token)
    (ha : Denotes token a) : a.IsSpelled := by
  cases ha with
  | number h => exact isToken_floatText _
  | symbol h =>
    show IsToken (String.ofList token).toList
    rw [String.toList_ofList]
    exact htoken

theorem reread_number {v : Float} (h : v ≠ -Decimal.infinity) :
    (Atom.number v).reread = Atom.number v := by
  have hread : Numeral.read? (Decimal.floatText v).toList = some v := Decimal.readToken?_floatText h
  exact atomOfToken_iff.1 (.number hread)

theorem reread_symbol {name : String} (h : Decimal.readToken? name.toList = none) :
    (Atom.symbol name : Atom Float).reread = .symbol name := by
  have hread : (Numeral.read? name.toList : Option Float) = none := h
  have hdenotes : Denotes name.toList (Atom.symbol (String.ofList name.toList) : Atom Float) := .symbol hread
  rw [String.ofList_toList] at hdenotes
  exact atomOfToken_iff.1 hdenotes

theorem reread_negative_infinity : (Atom.number (-Decimal.infinity)).reread = .symbol "-inf" := rfl

theorem reread_of_denotes {token : List Char} {a : Atom Float} (ha : Denotes token a) :
    a.reread = a ↔ a ≠ .number (-Decimal.infinity) := by
  constructor
  · rintro heq rfl
    rw [reread_negative_infinity] at heq
    cases heq
  · intro hne
    cases ha with
    | number h => exact reread_number fun heq => hne (congrArg _ heq)
    | symbol h => exact reread_symbol (by rw [String.toList_ofList]; exact h)

namespace Expr

/-- A tree with a bracket notation, symbols that are no numerals and no negative infinity is what is read
from its text. -/
theorem read_brackets {e : Expr Float} (hne : e.isEmpty = false) (hshape : e.Shapely) (hdepth : e.depth ≤ 512)
    (hsymbols : e.EveryAtom fun a => ∀ name, a = .symbol name →
      IsToken name.toList ∧ Decimal.readToken? name.toList = none)
    (hnumbers : e.EveryAtom fun a => a ≠ .number (-Decimal.infinity)) :
    Expr.read e.brackets = .ok e := by
  have hspelled : e.EveryAtom Atom.IsSpelled := by
    refine hsymbols.imp ?_
    intro a ha
    cases a with
    | number v => exact isToken_floatText v
    | symbol name => exact (ha name rfl).1
  have hsame : e.EveryAtom fun a => a.reread = a := by
    refine (EveryAtom.and hsymbols hnumbers).imp ?_
    rintro a ⟨ha, hne⟩
    cases a with
    | number v => exact reread_number fun heq => hne (congrArg _ heq)
    | symbol name => exact reread_symbol (ha name rfl).2
  rw [read_brackets_reread hne hshape hdepth hspelled, mapAtoms_eq_self_iff.2 hsame]

/-- The empty tree has the empty text, and no tree is read from that. -/
theorem read_brackets_empty :
    (empty : Expr Float).Shapely ∧ (empty : Expr Float).depth ≤ 512 ∧
      ((empty : Expr Float).EveryAtom fun a => ∀ name, a = .symbol name →
        IsToken name.toList ∧ Decimal.readToken? name.toList = none) ∧
      ((empty : Expr Float).EveryAtom fun a => a ≠ .number (-Decimal.infinity)) ∧
      (Expr.read (empty : Expr Float).brackets : Except (ExprFault Float) (Expr Float)) =
        .error (.malformed 0 .noOpening) :=
  ⟨trivial, by decide, everyAtom_empty, everyAtom_empty, rfl⟩

/-- `sin (-0) * (5e-324 + NaN)`. -/
def extremes : Expr Float :=
  node (.symbol "*") (node (.symbol "sin") (number (-0)) empty)
    (node (.symbol "+") (number (Float.ofBits 1)) (number (Float.ofBits 0x7ff8000000000000)))

theorem number_ne_of_toBits {v w : Float} (h : v.toBits ≠ w.toBits) :
    (Atom.number v : Atom Float) ≠ .number w := by
  intro heq
  cases heq
  exact h rfl

theorem everyAtom_extremes : extremes.EveryAtom fun a => a ≠ .number (-Decimal.infinity) := by
  have hneg : (-0 : Float).toBits ≠ (-Decimal.infinity).toBits := by decide
  have hleast : (Float.ofBits 1).toBits ≠ (-Decimal.infinity).toBits := by decide
  have hnan : (Float.ofBits 0x7ff8000000000000).toBits ≠ (-Decimal.infinity).toBits := by decide
  simp only [extremes, number, leaf, everyAtom_node, everyAtom_empty, and_true, ne_eq, reduceCtorEq,
    not_false_eq_true, true_and]
  exact ⟨number_ne_of_toBits hneg, number_ne_of_toBits hleast, number_ne_of_toBits hnan⟩

/-- A signed zero, the least positive number and NaN come back. -/
theorem read_brackets_extremes :
    extremes.isEmpty = false ∧ extremes.Shapely ∧ extremes.depth ≤ 512 ∧
      (extremes.EveryAtom fun a => ∀ name, a = .symbol name →
        IsToken name.toList ∧ Decimal.readToken? name.toList = none) ∧
      (extremes.EveryAtom fun a => a ≠ .number (-Decimal.infinity)) ∧
      Expr.read extremes.brackets = .ok extremes := by
  have hshape : extremes.Shapely := by simp [extremes, number, leaf, Shapely, isEmpty]
  have hsymbols : extremes.EveryAtom fun a => ∀ name, a = .symbol name →
      IsToken name.toList ∧ Decimal.readToken? name.toList = none := by
    simp only [extremes, number, leaf, everyAtom_node, everyAtom_empty, and_true, reduceCtorEq, false_imp_iff,
      implies_true, Atom.symbol.injEq, forall_eq']
    exact ⟨⟨by decide, rfl⟩, ⟨by decide, rfl⟩, by decide, rfl⟩
  exact ⟨rfl, hshape, by decide, hsymbols, everyAtom_extremes,
    read_brackets rfl hshape (by decide) hsymbols everyAtom_extremes⟩

/-- What was read is read again from its own text, but for negative infinities. -/
theorem read_brackets_of_read {text : String} {e : Expr Float} (h : Expr.read text = .ok e) :
    Expr.read e.brackets = .ok e ↔ e.EveryAtom fun a => a ≠ .number (-Decimal.infinity) := by
  obtain ⟨body, hwritten, hdepth⟩ := written_of_read h
  have hatoms := everyAtom_of_written hwritten
  have hspelled : e.EveryAtom Atom.IsSpelled :=
    hatoms.imp fun a ⟨_, htoken, ha⟩ => isSpelled_of_denotes htoken ha
  have hread := read_brackets_reread hwritten.isEmpty (shapely_of_written hwritten) hdepth hspelled
  have hequal : Expr.read e.brackets = .ok e ↔ e.mapAtoms Atom.reread = e := by
    rw [hread]
    exact ⟨Except.ok.inj, congrArg Except.ok⟩
  rw [hequal, mapAtoms_eq_self_iff]
  constructor
  · intro hsame
    exact (hatoms.and hsame).imp fun a ⟨⟨_, _, ha⟩, heq⟩ => (reread_of_denotes ha).1 heq
  · intro hfinite
    exact (hatoms.and hfinite).imp fun a ⟨⟨_, _, ha⟩, hne⟩ => (reread_of_denotes ha).2 hne

/-- The number of `-1e400` is negative infinity, and the text of that is a symbol. -/
theorem read_brackets_overflow :
    Expr.read "\x7b-1e400\x7d" = .ok (number (-Decimal.infinity)) ∧
      Expr.read (number (-Decimal.infinity)).brackets = .ok (symbol "-inf" : Expr Float) ∧
      number (-Decimal.infinity) ≠ symbol "-inf" := by
  refine ⟨rfl, rfl, ?_⟩
  intro heq
  cases heq

/-- Literals that overflow or vanish are read again from the text of what they were read as. -/
theorem read_brackets_of_read_limits :
    Expr.read "\x7b \x7b1e400\x7d / \x7b-1e-500\x7d \x7d" =
        .ok (node (.symbol "/") (number Decimal.infinity) (number (-0 : Float))) ∧
      (Expr.read (node (.symbol "/") (number Decimal.infinity) (number (-0))).brackets =
          .ok (node (.symbol "/") (number Decimal.infinity) (number (-0 : Float))) ↔
        (node (.symbol "/") (number Decimal.infinity) (number (-0 : Float))).EveryAtom
          fun a => a ≠ .number (-Decimal.infinity)) := by
  have hread : Expr.read "\x7b \x7b1e400\x7d / \x7b-1e-500\x7d \x7d" =
      .ok (node (.symbol "/") (number Decimal.infinity) (number (-0 : Float))) := rfl
  exact ⟨hread, read_brackets_of_read hread⟩

end Expr

end ExprCalculus
