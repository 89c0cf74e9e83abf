import ExprCalculus.Proofs.Expr.Grammar

/-!
# One character ahead

The reader of the bracket notation looks at no more of a text than what it uses up and one character after it. So where
it stops, with an expression or with a fault, it would have stopped before every other text that begins with the same
character. Readers put together from readers of this kind are of this kind.
-/

namespace ExprCalculus.Reader

variable {ν α β : Type}

/-! ### What is left of a text -/

/-- What the reading has left unread. -/
def unread : Except Stop (α × List Char) → List Char
  | .ok (_, rest) => rest
  | .error stop => stop.rest

/-- The same reading in front of another rest. -/
def withUnread (rest : List Char) : Except Stop (α × List Char) → Except Stop (α × List Char)
  | .ok (a, _) => .ok (a, rest)
  | .error stop => .error ⟨rest, stop.fault⟩

/-- Of what the reader leaves unread it has seen the first character only. -/
def LooksOneAhead (read : List Char → Except Stop (α × List Char)) : Prop :=
  ∀ text c rest, unread (read text) = c :: rest →
    ∃ before, text = before ++ c :: rest ∧
      ∀ rest', read (before ++ c :: rest') = withUnread (c :: rest') (read text)

theorem cons_of_append_cons (before : List Char) (c : Char) (rest : List Char) :
    ∃ d tail, before ++ c :: rest = d :: tail ∧ ∀ rest', ∃ tail', before ++ c :: rest' = d :: tail' := by
  cases before with
  | nil => exact ⟨c, rest, rfl, fun rest' => ⟨rest', rfl⟩⟩
  | cons d before => exact ⟨d, before ++ c :: rest, rfl, fun rest' => ⟨before ++ c :: rest', rfl⟩⟩

/-! ### Parts -/

def readBlanks (text : List Char) : Except Stop (Unit × List Char) := .ok ((), Text.skipBlanks text)

/-- Reads on where the first reader has stopped, unless it has failed. -/
def thenRead (read : List Char → Except Stop (α × List Char)) (next : α → List Char → Except Stop (β × List Char))
    (text : List Char) : Except Stop (β × List Char) :=
  match read text with
  | .ok (a, rest) => next a rest
  | .error stop => .error stop

/-- Reads on after the character, which must come first. -/
def expect (mark : Char) (fault : TextFault) (next : List Char → Except Stop (α × List Char)) :
    List Char → Except Stop (α × List Char)
  | [] => .error ⟨[], fault⟩
  | c :: rest => if c = mark then next rest else .error ⟨c :: rest, fault⟩

theorem looksOneAhead_done (a : α) : LooksOneAhead fun text => .ok (a, text) := by
  intro text c rest h
  exact ⟨[], h, fun rest' => rfl⟩

theorem looksOneAhead_stop (fault : TextFault) :
    LooksOneAhead fun text => (.error ⟨text, fault⟩ : Except Stop (α × List Char)) := by
  intro text c rest h
  exact ⟨[], h, fun rest' => rfl⟩

theorem looksOneAhead_readBlanks : LooksOneAhead readBlanks := by
  intro text c rest h
  obtain ⟨s, hs, htext⟩ := exists_skipBlanks text
  have hskip : Text.skipBlanks text = c :: rest := h
  have hstop : StopsAt Text.isBlank (c :: rest) := by
    rw [← hskip]
    exact stopsAt_dropWhile _ _
  rw [hskip] at htext
  refine ⟨s, htext, ?_⟩
  intro rest'
  have hstop' : StopsAt Text.isBlank (c :: rest') := hstop
  rw [readBlanks, skipBlanks_append hs hstop']
  rfl

theorem looksOneAhead_readToken : LooksOneAhead readToken := by
  intro text c rest h
  cases hread : readToken text with
  | ok result =>
    obtain ⟨token, after⟩ := result
    rw [hread] at h
    obtain rfl : after = c :: rest := h
    obtain ⟨htext, htoken, hends⟩ := readToken_eq_ok_iff.1 hread
    refine ⟨token, htext, ?_⟩
    intro rest'
    have hends' : EndsToken (c :: rest') := hends
    exact readToken_eq_ok_iff.2 ⟨rfl, htoken, hends'⟩
  | error stop =>
    rw [hread] at h
    have hrest : stop.rest = c :: rest := h
    unfold readToken at hread
    dsimp only at hread
    split at hread
    · rename_i hnone
      cases hread
      obtain rfl : text = c :: rest := hrest
      have hc : endsToken c = true := by
        cases hends : endsToken c with
        | true => rfl
        | false => simp [hends] at hnone
      refine ⟨[], rfl, ?_⟩
      intro rest'
      simp [readToken, hc, withUnread]
    · cases hread

/-! ### Composition -/

theorem LooksOneAhead.thenRead {read : List Char → Except Stop (α × List Char)}
    {next : α → List Char → Except Stop (β × List Char)} (hread : LooksOneAhead read)
    (hnext : ∀ a, LooksOneAhead (next a)) : LooksOneAhead (thenRead read next) := by
  intro text c rest h
  cases hfirst : read text with
  | error stop =>
    simp only [Reader.thenRead, hfirst] at h ⊢
    obtain ⟨before, htext, hsame⟩ := hread text c rest (by rw [hfirst]; exact h)
    refine ⟨before, htext, ?_⟩
    intro rest'
    simp only [hsame rest', hfirst, withUnread]
  | ok result =>
    obtain ⟨a, after⟩ := result
    simp only [Reader.thenRead, hfirst] at h ⊢
    obtain ⟨before, hafter, hsame⟩ := hnext a after c rest h
    -- The first reader stops at a character too, for the second one has something left after it.
    obtain ⟨d, tail, htail, htails⟩ := cons_of_append_cons before c rest
    obtain ⟨before₁, htext, hsame₁⟩ := hread text d tail (by rw [hfirst]; exact hafter.trans htail)
    refine ⟨before₁ ++ before, ?_, ?_⟩
    · rw [htext, ← htail, List.append_assoc]
    · intro rest'
      obtain ⟨tail', htail'⟩ := htails rest'
      have hfirst' : read (before₁ ++ before ++ c :: rest') = .ok (a, before ++ c :: rest') := by
        rw [List.append_assoc, htail', hsame₁, hfirst]
        rfl
      simp only [hfirst']
      exact hsame rest'

/-- A choice by the first character. -/
theorem LooksOneAhead.ite {p : List Char → Bool} {read read' : List Char → Except Stop (α × List Char)}
    (hp : ∀ c rest rest', p (c :: rest) = p (c :: rest')) (hread : LooksOneAhead read)
    (hread' : LooksOneAhead read') : LooksOneAhead fun text => if p text then read text else read' text := by
  intro text c rest h
  have hkept : ∀ {before : List Char}, text = before ++ c :: rest → ∀ rest', p (before ++ c :: rest') = p text := by
    intro before htext rest'
    obtain ⟨d, tail, htail, htails⟩ := cons_of_append_cons before c rest
    obtain ⟨tail', htail'⟩ := htails rest'
    rw [htext, htail, htail', hp d tail' tail]
  cases htest : p text with
  | true =>
    simp only [htest, if_true] at h
    obtain ⟨before, htext, hsame⟩ := hread text c rest h
    refine ⟨before, htext, ?_⟩
    intro rest'
    simp only [hkept htext rest', htest, if_true]
    exact hsame rest'
  | false =>
    simp only [htest, Bool.false_eq_true, if_false] at h
    obtain ⟨before, htext, hsame⟩ := hread' text c rest h
    refine ⟨before, htext, ?_⟩
    intro rest'
    simp only [hkept htext rest', htest, Bool.false_eq_true, if_false]
    exact hsame rest'

theorem LooksOneAhead.expect {next : List Char → Except Stop (α × List Char)} (hnext : LooksOneAhead next)
    (mark : Char) (fault : TextFault) : LooksOneAhead (expect mark fault next) := by
  intro text c rest h
  cases text with
  | nil => cases h
  | cons d tail =>
    by_cases hd : d = mark
    · simp only [Reader.expect, if_pos hd] at h ⊢
      obtain ⟨before, rfl, hsame⟩ := hnext tail c rest h
      refine ⟨d :: before, rfl, ?_⟩
      intro rest'
      simp only [List.cons_append, if_pos hd]
      exact hsame rest'
    · simp only [Reader.expect, if_neg hd] at h ⊢
      obtain ⟨rfl, rfl⟩ := List.cons.inj h
      refine ⟨[], rfl, ?_⟩
      intro rest'
      simp only [List.nil_append, if_neg hd]
      rfl

/-! ### Expressions -/

theorem isOpening_cons (c : Char) (rest rest' : List Char) : isOpening (c :: rest) = isOpening (c :: rest') := by
  by_cases hc : c = '\x7b'
  · subst hc
    rfl
  · simp [isOpening, hc]

theorem readOperand_eq (read : List Char → Except Stop (Expr ν × List Char)) :
    readOperand read = fun text =>
      if isOpening text then thenRead read (fun e => thenRead readBlanks fun _ text => .ok (e, text)) text
      else .ok (.empty, text) := by
  funext text
  unfold readOperand thenRead
  cases isOpening text with
  | false => rfl
  | true => cases read text <;> rfl

theorem looksOneAhead_readOperand {read : List Char → Except Stop (Expr ν × List Char)} (h : LooksOneAhead read) :
    LooksOneAhead (readOperand read) := by
  rw [readOperand_eq]
  have hopen := h.thenRead fun e => looksOneAhead_readBlanks.thenRead fun _ => looksOneAhead_done e
  exact hopen.ite isOpening_cons (looksOneAhead_done Expr.empty)

variable [Numeral ν]

/-- What is read of an expression after its opening brace. -/
def readBody (levels : Nat) : List Char → Except Stop (Expr ν × List Char) :=
  thenRead readBlanks fun _ => thenRead (readOperand (readNode levels)) fun l =>
    thenRead readToken fun token => thenRead readBlanks fun _ text =>
      if l.isEmpty && isOpening text then .error ⟨text, .rightWithoutLeft⟩
      else thenRead (readOperand (readNode levels))
        (fun r => expect '\x7d' .noClosing fun text => .ok (.node (atomOfToken token) l r, text)) text

theorem readNode_succ (levels : Nat) :
    readNode (levels + 1) (ν := ν) = expect '\x7b' .noOpening (readBody levels) := by
  funext text
  cases text with
  | nil => rfl
  | cons c body =>
    by_cases hc : c = '\x7b'
    · subst hc
      simp only [readNode, expect, if_true, readBody, thenRead, readBlanks]
      cases (readOperand (readNode levels) (Text.skipBlanks body) : Except Stop (Expr ν × List Char)) with
      | error stop => rfl
      | ok left =>
        obtain ⟨l, t₁⟩ := left
        simp only [bind, Except.bind]
        cases readToken t₁ with
        | error stop => rfl
        | ok result =>
          obtain ⟨token, t₂⟩ := result
          simp only
          cases htest : l.isEmpty && isOpening (Text.skipBlanks t₂) with
          | true => rfl
          | false =>
            simp only [Bool.false_eq_true, if_false]
            cases (readOperand (readNode levels) (Text.skipBlanks t₂) : Except Stop (Expr ν × List Char)) with
            | error stop => rfl
            | ok right =>
              obtain ⟨r, t₃⟩ := right
              cases t₃ with
              | nil => rfl
              | cons d rest =>
                by_cases hd : d = '\x7d'
                · subst hd
                  rfl
                · simp [hd, throw, throwThe, MonadExceptOf.throw]
    · simp [readNode, expect, hc]

theorem looksOneAhead_readNode (levels : Nat) : LooksOneAhead (readNode levels (ν := ν)) := by
  induction levels with
  | zero => exact looksOneAhead_stop .nestedTooDeep
  | succ levels ih =>
    have hoperand := looksOneAhead_readOperand ih
    rw [readNode_succ]
    refine LooksOneAhead.expect ?_ _ _
    refine looksOneAhead_readBlanks.thenRead fun _ => hoperand.thenRead fun l => looksOneAhead_readToken.thenRead
      fun token => looksOneAhead_readBlanks.thenRead fun _ => ?_
    refine LooksOneAhead.ite (p := fun text => l.isEmpty && isOpening text) ?_ (looksOneAhead_stop _) ?_
    · intro c rest rest'
      rw [isOpening_cons c rest rest']
    · exact hoperand.thenRead fun r => (looksOneAhead_done _).expect '\x7d' .noClosing

end ExprCalculus.Reader
