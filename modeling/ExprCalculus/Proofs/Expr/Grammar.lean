import ExprCalculus.Expr.Reader
import ExprCalculus.Proofs.Expr.Evaluation

/-!
# The grammar of the bracket notation

`Written` says which texts denote which expressions, one case for each number of operands. The reader accepts
just these texts, with blanks around them, as long as the brackets nest at most 512 deep.
-/

namespace ExprCalculus.Reader

variable {ν : Type} [Numeral ν]

/-! ### The grammar -/

/-- A run of blanks, possibly empty. -/
def Blanks (text : List Char) : Prop := ∀ c ∈ text, Text.isBlank c = true

/-- A run of characters, not empty, that are neither blanks nor braces. -/
def IsToken (text : List Char) : Prop :=
  text ≠ [] ∧ ∀ c ∈ text, Text.isBlank c = false ∧ c ≠ '\x7b' ∧ c ≠ '\x7d'

/-- The atom that a token denotes: its number, or a symbol if it is no numeral. -/
inductive Denotes (token : List Char) : Atom ν → Prop
  | number {v : ν} (h : Numeral.read? token = some v) : Denotes token (.number v)
  | symbol (h : (Numeral.read? token : Option ν) = none) : Denotes token (.symbol (String.ofList token))

/-- The text is a bracketed expression. A right operand stands only where a left one does. -/
inductive Written : List Char → Expr ν → Prop
  | leaf {s token t : List Char} {a : Atom ν} (hs : Blanks s) (htoken : IsToken token)
      (ha : Denotes token a) (ht : Blanks t) :
      Written ('\x7b' :: (s ++ (token ++ (t ++ ['\x7d'])))) (.leaf a)
  | unary {s u y token t : List Char} {a : Atom ν} {l : Expr ν} (hs : Blanks s) (hl : Written u l)
      (hy : Blanks y) (htoken : IsToken token) (ha : Denotes token a) (ht : Blanks t) :
      Written ('\x7b' :: (s ++ (u ++ (y ++ (token ++ (t ++ ['\x7d'])))))) (.node a l .empty)
  | binary {s u y token t v z : List Char} {a : Atom ν} {l r : Expr ν} (hs : Blanks s)
      (hl : Written u l) (hy : Blanks y) (htoken : IsToken token) (ha : Denotes token a) (ht : Blanks t)
      (hr : Written v r) (hz : Blanks z) :
      Written ('\x7b' :: (s ++ (u ++ (y ++ (token ++ (t ++ (v ++ (z ++ ['\x7d']))))))))
        (.node a l r)

/-- The greatest number of brackets open at once, of which `opened` are so from the start. -/
def nesting (opened : Nat) : List Char → Nat
  | [] => opened
  | '\x7b' :: rest => max opened (nesting (opened + 1) rest)
  | '\x7d' :: rest => max opened (nesting (opened - 1) rest)
  | _ :: rest => nesting opened rest

theorem atomOfToken_iff {token : List Char} {a : Atom ν} : Denotes token a ↔ atomOfToken token = a := by
  unfold atomOfToken
  constructor
  · rintro (h | h) <;> rw [h]
  · intro heq
    subst heq
    cases h : (Numeral.read? token : Option ν) with
    | some v => exact .number h
    | none => exact .symbol h

theorem Written.head {text : List Char} {e : Expr ν} (h : Written text e) :
    ∃ rest, text = '\x7b' :: rest := by
  cases h <;> exact ⟨_, rfl⟩

theorem Written.isEmpty {text : List Char} {e : Expr ν} (h : Written text e) : e.isEmpty = false := by
  cases h <;> rfl

/-! ### Runs of characters -/

section Runs

variable {p : Char → Bool} {xs ys : List Char}

/-- The head of the text, if there is one, fails the test. -/
def StopsAt (p : Char → Bool) (text : List Char) : Prop := ∀ c, text.head? = some c → p c = false

theorem dropWhile_append_stop (hx : ∀ c ∈ xs, p c = true) (hy : StopsAt p ys) :
    (xs ++ ys).dropWhile p = ys := by
  rw [List.dropWhile_append_of_pos hx]
  cases ys with
  | nil => rfl
  | cons y ys => rw [List.dropWhile_cons_of_neg (by simp [hy y rfl])]

theorem takeWhile_append_stop (hx : ∀ c ∈ xs, p c = true) (hy : StopsAt p ys) :
    (xs ++ ys).takeWhile p = xs := by
  rw [List.takeWhile_append_of_pos hx]
  cases ys with
  | nil => simp
  | cons y ys => rw [List.takeWhile_cons_of_neg (by simp [hy y rfl]), List.append_nil]

theorem stopsAt_dropWhile (p : Char → Bool) (text : List Char) : StopsAt p (text.dropWhile p) := by
  intro c hc
  have h := List.head?_dropWhile_not p text
  rw [hc] at h
  exact h

end Runs

theorem skipBlanks_append {s rest : List Char} (hs : Blanks s) (hrest : StopsAt Text.isBlank rest) :
    Text.skipBlanks (s ++ rest) = rest := dropWhile_append_stop hs hrest

theorem exists_skipBlanks (text : List Char) :
    ∃ s, Blanks s ∧ text = s ++ Text.skipBlanks text :=
  ⟨text.takeWhile Text.isBlank, List.all_eq_true.1 List.all_takeWhile,
    List.takeWhile_append_dropWhile.symm⟩

theorem IsToken.stopsAt_isBlank {token : List Char} (h : IsToken token) (rest : List Char) :
    StopsAt Text.isBlank (token ++ rest) := by
  obtain ⟨hne, hchars⟩ := h
  cases token with
  | nil => exact absurd rfl hne
  | cons c cs =>
    intro _ heq
    cases heq
    exact (hchars c List.mem_cons_self).1

theorem IsToken.not_isOpening {token : List Char} (h : IsToken token) (rest : List Char) :
    isOpening (token ++ rest) = false := by
  obtain ⟨hne, hchars⟩ := h
  cases token with
  | nil => exact absurd rfl hne
  | cons c cs =>
    have hc : c ≠ '\x7b' := (hchars c List.mem_cons_self).2.1
    show isOpening (c :: (cs ++ rest)) = false
    unfold isOpening
    split
    · rename_i heq
      exact absurd (List.cons.inj heq).1 hc
    · rfl

theorem Written.stopsAt_isBlank {text : List Char} {e : Expr ν} (h : Written text e)
    (rest : List Char) : StopsAt Text.isBlank (text ++ rest) := by
  obtain ⟨body, rfl⟩ := h.head
  intro _ heq
  cases heq
  decide

theorem stopsAt_closing (rest : List Char) : StopsAt Text.isBlank ('\x7d' :: rest) := by
  intro _ heq
  cases heq
  decide

/-! ### Tokens -/

theorem endsToken_eq_false_iff {c : Char} :
    endsToken c = false ↔ Text.isBlank c = false ∧ c ≠ '\x7b' ∧ c ≠ '\x7d' := by
  simp [endsToken, and_assoc]

/-- What may follow a token: nothing, or a character that ends it. -/
def EndsToken (rest : List Char) : Prop := StopsAt (fun c => !endsToken c) rest

theorem readToken_eq_ok_iff {text token rest : List Char} :
    readToken text = .ok (token, rest) ↔ text = token ++ rest ∧ IsToken token ∧ EndsToken rest := by
  have hnot : ∀ c, (!endsToken c) = true ↔ Text.isBlank c = false ∧ c ≠ '\x7b' ∧ c ≠ '\x7d' := by
    intro c
    rw [Bool.not_eq_true', endsToken_eq_false_iff]
  unfold readToken
  constructor
  · intro h
    dsimp only at h
    split at h
    · cases h
    · rename_i hne
      cases h
      refine ⟨List.takeWhile_append_dropWhile.symm, ⟨by simpa using hne, ?_⟩, stopsAt_dropWhile _ _⟩
      intro c hc
      exact (hnot c).1 (List.all_eq_true.1 List.all_takeWhile c hc)
  · intro htoken
    obtain ⟨rfl, ⟨hne, hchars⟩, hstop⟩ := htoken
    have hall : ∀ c ∈ token, (!endsToken c) = true := fun c hc => (hnot c).2 (hchars c hc)
    have htoken : (token ++ rest).takeWhile (fun c => !endsToken c) = token :=
      takeWhile_append_stop hall hstop
    have hrest : (token ++ rest).dropWhile (fun c => !endsToken c) = rest :=
      dropWhile_append_stop hall hstop
    simp only [htoken, hrest]
    rw [if_neg (by simpa using hne)]

theorem endsToken_blanks {s rest : List Char} (hs : Blanks s)
    (hrest : EndsToken rest) : EndsToken (s ++ rest) := by
  cases s with
  | nil => exact hrest
  | cons c cs =>
    intro _ heq
    cases heq
    simp [endsToken, hs c List.mem_cons_self]

theorem endsToken_closing (rest : List Char) : EndsToken ('\x7d' :: rest) := by
  intro _ heq
  cases heq
  decide

theorem Written.endsToken {text : List Char} {e : Expr ν} (h : Written text e)
    (rest : List Char) : EndsToken (text ++ rest) := by
  obtain ⟨body, rfl⟩ := h.head
  intro _ heq
  cases heq
  decide

/-! ### One level of brackets -/

theorem isOpening_iff {text : List Char} : isOpening text = true ↔ ∃ rest, text = '\x7b' :: rest := by
  unfold isOpening
  split
  · rename_i rest
    exact ⟨fun _ => ⟨rest, rfl⟩, fun _ => rfl⟩
  · rename_i hne
    constructor
    · intro h
      cases h
    · intro hhead
      obtain ⟨rest, rfl⟩ := hhead
      exact absurd rfl (hne rest)

omit [Numeral ν] in
theorem readOperand_eq_ok_iff {read : List Char → Except Stop (Expr ν × List Char)}
    {text rest : List Char} {e : Expr ν} :
    readOperand read text = .ok (e, rest) ↔
      (isOpening text = true ∧ ∃ after, read text = .ok (e, after) ∧ Text.skipBlanks after = rest) ∨
        (isOpening text = false ∧ e = .empty ∧ rest = text) := by
  unfold readOperand
  cases h : isOpening text with
  | true =>
    rw [if_pos rfl, bind_eq_ok_iff]
    constructor
    · intro hrun
      obtain ⟨⟨e', after⟩, hread, heq⟩ := hrun
      cases heq
      exact .inl ⟨rfl, after, hread, rfl⟩
    · intro hcases
      rcases hcases with ⟨_, after, hread, rfl⟩ | ⟨hfalse, _⟩
      · exact ⟨(e, after), hread, rfl⟩
      · cases hfalse
  | false => simp [pure, Except.pure, eq_comm]

/-- What it takes to read one node, step by step. -/
theorem readNode_eq_ok_iff {levels : Nat} {text rest : List Char} {e : Expr ν} :
    readNode (levels + 1) text = .ok (e, rest) ↔
      ∃ body l r token t₁ t₂, text = '\x7b' :: body ∧
        readOperand (readNode levels) (Text.skipBlanks body) = .ok (l, t₁) ∧
        readToken t₁ = .ok (token, t₂) ∧
        (l.isEmpty && isOpening (Text.skipBlanks t₂)) = false ∧
        readOperand (readNode levels) (Text.skipBlanks t₂) = .ok (r, '\x7d' :: rest) ∧
        .node (atomOfToken token) l r = e := by
  constructor
  · intro h
    unfold readNode at h
    split at h
    · cases h
    · rename_i body hlevels
      cases hlevels
      simp only [bind_eq_ok_iff] at h
      obtain ⟨⟨l, t₁⟩, hl, ⟨token, t₂⟩, htoken, h⟩ := h
      dsimp only at htoken h
      split at h
      · cases h
      · rename_i hpair
        rw [bind_eq_ok_iff] at h
        obtain ⟨⟨r, t₃⟩, hr, h⟩ := h
        dsimp only at h
        split at h
        · cases h
          exact ⟨body, l, r, token, t₁, t₂, rfl, hl, htoken, Bool.eq_false_iff.2 hpair, hr, rfl⟩
        · cases h
    · cases h
  · intro hsteps
    obtain ⟨body, l, r, token, t₁, t₂, rfl, hl, htoken, hpair, hr, rfl⟩ := hsteps
    rw [readNode, bind_eq_ok_iff]
    refine ⟨_, hl, ?_⟩
    rw [bind_eq_ok_iff]
    refine ⟨_, htoken, ?_⟩
    dsimp only
    rw [hpair, if_neg Bool.false_ne_true, bind_eq_ok_iff]
    exact ⟨_, hr, rfl⟩

/-! ### What is read is written -/

theorem operand_of_read {levels : Nat}
    (ih : ∀ {text rest : List Char} {e : Expr ν}, readNode levels text = .ok (e, rest) →
      ∃ body, text = body ++ rest ∧ Written body e ∧ e.depth ≤ levels)
    {text rest : List Char} {e : Expr ν} (h : readOperand (readNode levels) text = .ok (e, rest)) :
    (e = .empty ∧ rest = text) ∨
      ∃ body s, text = body ++ (s ++ rest) ∧ Written body e ∧ Blanks s ∧ e.depth ≤ levels := by
  rcases readOperand_eq_ok_iff.1 h with ⟨_, after, hread, hafter⟩ | ⟨_, he, hrest⟩
  · obtain ⟨body, hbody, hwritten, hdepth⟩ := ih hread
    obtain ⟨s, hs, hsplit⟩ := exists_skipBlanks after
    rw [hafter] at hsplit
    exact .inr ⟨body, s, by rw [hbody, hsplit], hwritten, hs, hdepth⟩
  · exact .inl ⟨he, hrest⟩

theorem written_of_readNode {levels : Nat} {text rest : List Char} {e : Expr ν}
    (h : readNode levels text = .ok (e, rest)) :
    ∃ body, text = body ++ rest ∧ Written body e ∧ e.depth ≤ levels := by
  -- The reader recurses on the levels left to it, not on the text.
  induction levels generalizing text rest e with
  | zero => cases h
  | succ levels ih =>
    obtain ⟨body, l, r, token, t₁, t₂, rfl, hl, htoken, hpair, hr, rfl⟩ := readNode_eq_ok_iff.1 h
    obtain ⟨s, hs, hbody⟩ := exists_skipBlanks body
    obtain ⟨rfl, hIsToken, _⟩ := readToken_eq_ok_iff.1 htoken
    obtain ⟨t, ht, htext⟩ := exists_skipBlanks t₂
    have ha : Denotes token (atomOfToken token : Atom ν) := atomOfToken_iff.2 rfl
    rcases operand_of_read ih hl with ⟨rfl, hleft⟩ | ⟨u, y, hleft, hu, hy, hudepth⟩
    · have hclosed : isOpening (Text.skipBlanks t₂) = false := hpair
      obtain ⟨rfl, hright⟩ : r = .empty ∧ '\x7d' :: rest = Text.skipBlanks t₂ := by
        rcases readOperand_eq_ok_iff.1 hr with ⟨hopen, _⟩ | ⟨_, hempty, hrest⟩
        · rw [hclosed] at hopen
          cases hopen
        · exact ⟨hempty, hrest⟩
      refine ⟨_, ?_, .leaf hs hIsToken ha ht, by simp [Expr.depth]⟩
      rw [hbody, ← hleft, htext, ← hright]
      simp
    · rcases operand_of_read ih hr with ⟨rfl, hright⟩ | ⟨v, z, hright, hv, hz, hvdepth⟩
      · refine ⟨_, ?_, .unary hs hu hy hIsToken ha ht, by simp only [Expr.depth]; omega⟩
        rw [hbody, hleft, htext, ← hright]
        simp
      · refine ⟨_, ?_, .binary hs hu hy hIsToken ha ht hv hz, by simp only [Expr.depth]; omega⟩
        rw [hbody, hleft, htext, hright]
        simp

/-! ### What is written is read -/

theorem readOperand_written {levels : Nat} {u s rest : List Char} {e : Expr ν} (hu : Written u e)
    (hread : readNode levels (u ++ (s ++ rest)) = .ok (e, s ++ rest)) (hs : Blanks s)
    (hrest : StopsAt Text.isBlank rest) :
    readOperand (readNode levels) (u ++ (s ++ rest)) = .ok (e, rest) := by
  obtain ⟨body, hbody⟩ := hu.head
  refine readOperand_eq_ok_iff.2 (.inl ⟨?_, s ++ rest, hread, skipBlanks_append hs hrest⟩)
  exact isOpening_iff.2 ⟨body ++ (s ++ rest), by rw [hbody]; rfl⟩

theorem readOperand_missing {levels : Nat} {text : List Char} (h : isOpening text = false) :
    readOperand (readNode levels) text = .ok ((.empty : Expr ν), text) :=
  readOperand_eq_ok_iff.2 (.inr ⟨h, rfl, rfl⟩)

omit [Numeral ν] in
theorem exists_outer_level {a : Atom ν} {l r : Expr ν} {levels : Nat}
    (h : (Expr.node a l r).depth ≤ levels) :
    ∃ n, levels = n + 1 ∧ l.depth ≤ n ∧ r.depth ≤ n := by
  simp only [Expr.depth] at h
  exact ⟨levels - 1, by omega, by omega, by omega⟩

theorem readNode_of_written {body : List Char} {e : Expr ν} (h : Written body e) {levels : Nat}
    (hdepth : e.depth ≤ levels) (rest : List Char) : readNode levels (body ++ rest) = .ok (e, rest) := by
  induction h generalizing levels rest with
  | @leaf s token t a hs htoken ha ht =>
    obtain ⟨n, rfl, _⟩ := exists_outer_level hdepth
    refine readNode_eq_ok_iff.2
      ⟨s ++ (token ++ (t ++ ('\x7d' :: rest))), .empty, .empty, token, token ++ (t ++ ('\x7d' :: rest)),
        t ++ ('\x7d' :: rest), by simp, ?_, ?_, ?_, ?_, ?_⟩
    · rw [skipBlanks_append hs (htoken.stopsAt_isBlank _)]
      exact readOperand_missing (htoken.not_isOpening _)
    · exact readToken_eq_ok_iff.2 ⟨rfl, htoken, endsToken_blanks ht (endsToken_closing rest)⟩
    · rw [skipBlanks_append ht (stopsAt_closing rest)]
      rfl
    · rw [skipBlanks_append ht (stopsAt_closing rest)]
      exact readOperand_missing rfl
    · rw [atomOfToken_iff.1 ha]
      rfl
  | @unary s u y token t a l hs hl hy htoken ha ht ih =>
    obtain ⟨n, rfl, hldepth, _⟩ := exists_outer_level hdepth
    have hlread := ih hldepth (y ++ (token ++ (t ++ ('\x7d' :: rest))))
    refine readNode_eq_ok_iff.2
      ⟨s ++ (u ++ (y ++ (token ++ (t ++ ('\x7d' :: rest))))), l, .empty, token,
        token ++ (t ++ ('\x7d' :: rest)), t ++ ('\x7d' :: rest), by simp, ?_, ?_, ?_, ?_, ?_⟩
    · rw [skipBlanks_append hs (hl.stopsAt_isBlank _)]
      exact readOperand_written hl hlread hy (htoken.stopsAt_isBlank _)
    · exact readToken_eq_ok_iff.2 ⟨rfl, htoken, endsToken_blanks ht (endsToken_closing rest)⟩
    · rw [hl.isEmpty, Bool.false_and]
    · rw [skipBlanks_append ht (stopsAt_closing rest)]
      exact readOperand_missing rfl
    · rw [atomOfToken_iff.1 ha]
  | @binary s u y token t v z a l r hs hl hy htoken ha ht hr hz ihl ihr =>
    obtain ⟨n, rfl, hldepth, hrdepth⟩ := exists_outer_level hdepth
    have hlread := ihl hldepth (y ++ (token ++ (t ++ (v ++ (z ++ ('\x7d' :: rest))))))
    have hrread := ihr hrdepth (z ++ ('\x7d' :: rest))
    refine readNode_eq_ok_iff.2
      ⟨s ++ (u ++ (y ++ (token ++ (t ++ (v ++ (z ++ ('\x7d' :: rest))))))), l, r, token,
        token ++ (t ++ (v ++ (z ++ ('\x7d' :: rest)))), t ++ (v ++ (z ++ ('\x7d' :: rest))), by simp,
        ?_, ?_, ?_, ?_, ?_⟩
    · rw [skipBlanks_append hs (hl.stopsAt_isBlank _)]
      exact readOperand_written hl hlread hy (htoken.stopsAt_isBlank _)
    · exact readToken_eq_ok_iff.2 ⟨rfl, htoken, endsToken_blanks ht (hr.endsToken _)⟩
    · rw [hl.isEmpty, Bool.false_and]
    · rw [skipBlanks_append ht (hr.stopsAt_isBlank _)]
      exact readOperand_written hr hrread hz (stopsAt_closing rest)
    · rw [atomOfToken_iff.1 ha]

/-! ### Nesting -/

theorem nesting_append_of_ne {s : List Char} (h : ∀ c ∈ s, c ≠ '\x7b' ∧ c ≠ '\x7d') (k : Nat)
    (rest : List Char) : nesting k (s ++ rest) = nesting k rest := by
  induction s with
  | nil => rfl
  | cons c cs ih =>
    obtain ⟨hopen, hclose⟩ := h c List.mem_cons_self
    have hstep : nesting k (c :: (cs ++ rest)) = nesting k (cs ++ rest) := by
      rw [nesting]
      · exact hopen
      · exact hclose
    rw [List.cons_append, hstep]
    exact ih fun c' hc' => h c' (List.mem_cons_of_mem c hc')

theorem nesting_blanks {s : List Char} (hs : Blanks s) (k : Nat) (rest : List Char) :
    nesting k (s ++ rest) = nesting k rest := by
  refine nesting_append_of_ne (fun c hc => ?_) k rest
  have hblank := hs c hc
  constructor
  · intro heq
    subst heq
    exact absurd hblank (by decide)
  · intro heq
    subst heq
    exact absurd hblank (by decide)

theorem nesting_token {token : List Char} (h : IsToken token) (k : Nat) (rest : List Char) :
    nesting k (token ++ rest) = nesting k rest :=
  nesting_append_of_ne (fun c hc => (h.2 c hc).2) k rest

theorem nesting_opening (k : Nat) (rest : List Char) :
    nesting k ('\x7b' :: rest) = max k (nesting (k + 1) rest) := rfl

theorem nesting_closing (k : Nat) (rest : List Char) :
    nesting (k + 1) ('\x7d' :: rest) = max (k + 1) (nesting k rest) := rfl

/-- The brackets of a written expression nest as deep as its tree. -/
theorem nesting_written {body : List Char} {e : Expr ν} (h : Written body e) (k : Nat)
    (rest : List Char) : nesting k (body ++ rest) = max (k + e.depth) (nesting k rest) := by
  induction h generalizing k rest with
  | leaf hs htoken ha ht =>
    simp only [List.cons_append, List.append_assoc, List.nil_append, nesting_opening, nesting_blanks hs,
      nesting_token htoken, nesting_blanks ht, nesting_closing, Expr.leaf, Expr.depth]
    omega
  | unary hs hl hy htoken ha ht ih =>
    simp only [List.cons_append, List.append_assoc, List.nil_append, nesting_opening, nesting_blanks hs,
      ih, nesting_blanks hy, nesting_token htoken, nesting_blanks ht, nesting_closing, Expr.depth]
    omega
  | binary hs hl hy htoken ha ht hr hz ihl ihr =>
    simp only [List.cons_append, List.append_assoc, List.nil_append, nesting_opening, nesting_blanks hs,
      ihl, nesting_blanks hy, nesting_token htoken, nesting_blanks ht, ihr, nesting_blanks hz,
      nesting_closing, Expr.depth]
    omega

/-! ### Whole texts -/

theorem skipBlanks_eq_nil_iff {text : List Char} : Text.skipBlanks text = [] ↔ Blanks text := by
  constructor
  · intro h
    obtain ⟨s, hs, htext⟩ := exists_skipBlanks text
    rw [htext, h, List.append_nil]
    exact hs
  · intro h
    have hskip := skipBlanks_append h (show StopsAt Text.isBlank [] by rintro _ ⟨⟩)
    rwa [List.append_nil] at hskip

theorem readAll_eq_ok_iff {text : List Char} {e : Expr ν} :
    readAll text = .ok e ↔
      ∃ rest, readNode nestingLimit (Text.skipBlanks text) = .ok (e, rest) ∧ Blanks rest := by
  unfold readAll
  rw [bind_eq_ok_iff]
  constructor
  · intro hrun
    obtain ⟨⟨e', rest⟩, hread, h⟩ := hrun
    dsimp only at h
    split at h
    · rename_i hempty
      cases h
      exact ⟨rest, hread, skipBlanks_eq_nil_iff.1 (by simpa using hempty)⟩
    · cases h
  · intro hrest
    obtain ⟨rest, hread, hblank⟩ := hrest
    refine ⟨(e, rest), hread, ?_⟩
    dsimp only
    rw [skipBlanks_eq_nil_iff.2 hblank]
    rfl

/-- A text is read as an expression if and only if it is that expression in brackets between blanks, and its
brackets nest at most 512 deep. -/
theorem read_eq_ok_iff {text : String} {e : Expr ν} :
    Expr.read text = .ok e ↔
      nesting 0 text.toList ≤ 512 ∧
        ∃ before body after, text.toList = before ++ (body ++ after) ∧ Blanks before ∧
          Written body e ∧ Blanks after := by
  have hok : Expr.read text = .ok e ↔ readAll text.toList = .ok e := by
    unfold Expr.read
    cases (readAll text.toList : Except Stop (Expr ν)) with
    | error stop =>
      constructor <;>
        · intro heq
          cases heq
    | ok e' => exact ⟨fun heq => congrArg Except.ok (Except.ok.inj heq),
        fun heq => congrArg Except.ok (Except.ok.inj heq)⟩
  have hnesting : ∀ {before body after : List Char}, Blanks before → Written body e → Blanks after →
      nesting 0 (before ++ (body ++ after)) = e.depth := by
    intro before body after hbefore hbody hafter
    have hend : nesting 0 (after ++ []) = 0 := nesting_blanks hafter 0 []
    rw [List.append_nil] at hend
    rw [nesting_blanks hbefore, nesting_written hbody, hend]
    omega
  rw [hok, readAll_eq_ok_iff]
  constructor
  · intro hwhole
    obtain ⟨after, hread, hafter⟩ := hwhole
    obtain ⟨before, hbefore, htext⟩ := exists_skipBlanks text.toList
    obtain ⟨body, hbody, hwritten, hdepth⟩ := written_of_readNode hread
    rw [hbody] at htext
    refine ⟨?_, before, body, after, htext, hbefore, hwritten, hafter⟩
    rw [htext, hnesting hbefore hwritten hafter]
    exact hdepth
  · intro hdescribed
    obtain ⟨hlimit, before, body, after, htext, hbefore, hwritten, hafter⟩ := hdescribed
    rw [htext, hnesting hbefore hwritten hafter] at hlimit
    refine ⟨after, ?_, hafter⟩
    rw [htext, skipBlanks_append hbefore (hwritten.stopsAt_isBlank after)]
    exact readNode_of_written hwritten hlimit after

end ExprCalculus.Reader
