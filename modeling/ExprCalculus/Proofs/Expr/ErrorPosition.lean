import ExprCalculus.Number.Binary64
import ExprCalculus.Proofs.Expr.Lookahead

/-!
# Where reading stops

An error of the reader names the first place at which the text can no longer be saved. Everything before it can be
completed to a text that is read, since what has been read so far is the beginning of a written expression. With the
character at that place nothing can, since the reader looks no further than this character.
-/

namespace ExprCalculus.Reader

variable {ν : Type} [Numeral ν]

/-! ### Beginnings of expressions -/

/-- The text begins an expression whose brackets nest at most so deep. -/
def Begins (ν : Type) [Numeral ν] (levels : Nat) (before : List Char) : Prop :=
  ∃ after, ∃ e : Expr ν, Written (before ++ after) e ∧ e.depth ≤ levels

/-- All that stands in front of the token of an expression with this left operand. -/
inductive Opened (levels : Nat) : List Char → Expr ν → Prop
  | bare {s : List Char} (hs : Blanks s) : Opened levels ('\x7b' :: s) .empty
  | operand {s u y : List Char} {l : Expr ν} (hs : Blanks s) (hl : Written u l) (hdepth : l.depth ≤ levels)
      (hy : Blanks y) : Opened levels ('\x7b' :: (s ++ (u ++ y))) l

theorem blanks_nil : Blanks [] := by
  intro c hc
  cases hc

theorem isToken_letter : IsToken ['x'] := by
  refine ⟨by decide, ?_⟩
  intro c hc
  rw [List.mem_singleton.1 hc]
  decide

namespace Opened

variable {levels : Nat} {p token t v z : List Char} {l r : Expr ν}

theorem closed (h : Opened levels p l) (htoken : IsToken token) (ht : Blanks t) :
    Written (p ++ (token ++ (t ++ ['\x7d']))) (.node (atomOfToken token) l .empty) ∧
      (Expr.node (atomOfToken token) l .empty).depth ≤ levels + 1 := by
  have ha : Denotes token (atomOfToken token : Atom ν) := atomOfToken_iff.2 rfl
  cases h with
  | bare hs =>
    have hwritten := Written.leaf hs htoken ha ht
    exact ⟨by simpa [Expr.leaf] using hwritten, by simp [Expr.depth]⟩
  | operand hs hl hdepth hy =>
    refine ⟨by simpa using Written.unary hs hl hy htoken ha ht, ?_⟩
    simp only [Expr.depth]
    omega

theorem closedRight (h : Opened levels p l) (hl : l.isEmpty = false) (htoken : IsToken token) (ht : Blanks t)
    (hv : Written v r) (hr : r.depth ≤ levels) (hz : Blanks z) :
    Written (p ++ (token ++ (t ++ (v ++ (z ++ ['\x7d']))))) (.node (atomOfToken token) l r) ∧
      (Expr.node (atomOfToken token) l r).depth ≤ levels + 1 := by
  have ha : Denotes token (atomOfToken token : Atom ν) := atomOfToken_iff.2 rfl
  cases h with
  | bare hs => cases hl
  | operand hs hu hdepth hy =>
    refine ⟨by simpa using Written.binary hs hu hy htoken ha ht hv hz, ?_⟩
    simp only [Expr.depth]
    omega

theorem begins (h : Opened levels p l) : Begins ν (levels + 1) p := by
  obtain ⟨hwritten, hdepth⟩ := h.closed isToken_letter blanks_nil
  exact ⟨_, _, hwritten, hdepth⟩

theorem begins_token (h : Opened levels p l) (htoken : IsToken token) (ht : Blanks t) :
    Begins ν (levels + 1) (p ++ (token ++ t)) := by
  obtain ⟨hwritten, hdepth⟩ := h.closed htoken ht
  exact ⟨['\x7d'], _, by simpa using hwritten, hdepth⟩

theorem begins_right (h : Opened levels p l) (hl : l.isEmpty = false) (htoken : IsToken token) (ht : Blanks t)
    (hv : Begins ν levels v) : Begins ν (levels + 1) (p ++ (token ++ (t ++ v))) := by
  obtain ⟨after, r, hr, hrdepth⟩ := hv
  obtain ⟨hwritten, hdepth⟩ := h.closedRight hl htoken ht hr hrdepth blanks_nil
  exact ⟨after ++ ['\x7d'], _, by simpa using hwritten, hdepth⟩

end Opened

theorem begins_nil {levels : Nat} (h : 0 < levels) : Begins ν levels [] := by
  cases levels with
  | zero => omega
  | succ levels =>
    have hopened : Opened levels ['\x7b'] (.empty : Expr ν) := .bare blanks_nil
    obtain ⟨after, e, hwritten, hdepth⟩ := hopened.begins
    exact ⟨_, e, hwritten, hdepth⟩

theorem begins_left {levels : Nat} {s u : List Char} (hs : Blanks s) (hu : Begins ν levels u) :
    Begins ν (levels + 1) ('\x7b' :: (s ++ u)) := by
  obtain ⟨after, l, hl, hdepth⟩ := hu
  obtain ⟨rest, e, hwritten, hedepth⟩ := (Opened.operand hs hl hdepth blanks_nil).begins
  exact ⟨after ++ rest, e, by simpa using hwritten, hedepth⟩

/-! ### What a failed reader has read -/

omit [Numeral ν] in
theorem thenRead_eq_error_iff {α β : Type} {read : List Char → Except Stop (α × List Char)}
    {next : α → List Char → Except Stop (β × List Char)} {text : List Char} {stop : Stop} :
    thenRead read next text = .error stop ↔
      read text = .error stop ∨ ∃ a rest, read text = .ok (a, rest) ∧ next a rest = .error stop := by
  unfold thenRead
  cases read text with
  | error stop' => simp
  | ok result =>
    obtain ⟨a, rest⟩ := result
    constructor
    · intro hnext
      exact .inr ⟨a, rest, rfl, hnext⟩
    · rintro (hread | ⟨_, _, hread, hnext⟩)
      · cases hread
      · cases hread
        exact hnext

omit [Numeral ν] in
theorem thenRead_readBlanks {β : Type} (next : Unit → List Char → Except Stop (β × List Char)) (text : List Char) :
    thenRead readBlanks next text = next () (Text.skipBlanks text) := rfl

theorem rest_of_readToken_error {text : List Char} {stop : Stop} (h : readToken text = .error stop) :
    stop.rest = text := by
  unfold readToken at h
  dsimp only at h
  split at h
  · cases h
    rfl
  · cases h

theorem rest_of_expect_error {α : Type} {mark : Char} {fault : TextFault} {f : List Char → α × List Char}
    {text : List Char} {stop : Stop} (h : expect mark fault (fun text => .ok (f text)) text = .error stop) :
    stop.rest = text := by
  cases text with
  | nil =>
    cases h
    rfl
  | cons c rest =>
    simp only [expect] at h
    split at h
    · cases h
    · cases h
      rfl

omit [Numeral ν] in
theorem of_readOperand_error {read : List Char → Except Stop (Expr ν × List Char)} {text : List Char} {stop : Stop}
    (h : readOperand read text = .error stop) : isOpening text = true ∧ read text = .error stop := by
  cases hopen : isOpening text with
  | false => simp [readOperand, hopen, pure, Except.pure] at h
  | true =>
    cases hread : read text with
    | error stop' => simpa [readOperand, hopen, hread, bind, Except.bind] using h
    | ok result => simp [readOperand, hopen, hread, bind, Except.bind, pure, Except.pure] at h

theorem opened_of_readOperand {levels : Nat} {body rest : List Char} {l : Expr ν}
    (h : readOperand (readNode levels) (Text.skipBlanks body) = .ok (l, rest)) :
    ∃ p, '\x7b' :: body = p ++ rest ∧ Opened levels p l := by
  obtain ⟨s, hs, hbody⟩ := exists_skipBlanks body
  rcases operand_of_read written_of_readNode h with ⟨rfl, hrest⟩ | ⟨u, y, hrest, hu, hy, hdepth⟩
  · refine ⟨'\x7b' :: s, ?_, .bare hs⟩
    rw [hrest, List.cons_append, ← hbody]
  · refine ⟨'\x7b' :: (s ++ (u ++ y)), ?_, .operand hs hu hdepth hy⟩
    rw [hbody, hrest]
    simp

/-- The rest of an expression after its token. Where reading stops in it, more of the expression can follow. -/
theorem begins_of_readRight_error {levels : Nat} {p token t text : List Char} {l : Expr ν} {a : Atom ν} {stop : Stop}
    (hoperand : ∀ {text : List Char},
      (readOperand (readNode levels) text : Except Stop (Expr ν × List Char)) = .error stop →
        ∃ before, text = before ++ stop.rest ∧ (before = [] ∨ Begins ν levels before))
    (hopened : Opened levels p l) (htoken : IsToken token) (ht : Blanks t)
    (hleft : isOpening text = true → l.isEmpty = false)
    (h : thenRead (readOperand (readNode levels))
      (fun r => expect '\x7d' .noClosing fun text => .ok (Expr.node a l r, text)) text = .error stop) :
    ∃ before, text = before ++ stop.rest ∧ Begins ν (levels + 1) (p ++ (token ++ (t ++ before))) := by
  have hnothing : Begins ν (levels + 1) (p ++ (token ++ (t ++ []))) := by
    rw [List.append_nil]
    exact hopened.begins_token htoken ht
  rcases thenRead_eq_error_iff.1 h with hread | ⟨r, rest, hread, hclosing⟩
  · obtain ⟨before, htext, hbefore⟩ := hoperand hread
    refine ⟨before, htext, ?_⟩
    rcases hbefore with rfl | hbefore
    · exact hnothing
    · exact hopened.begins_right (hleft (of_readOperand_error hread).1) htoken ht hbefore
  · rw [rest_of_expect_error hclosing]
    rcases operand_of_read written_of_readNode hread with ⟨rfl, rfl⟩ | ⟨v, z, rfl, hv, hz, hdepth⟩
    · exact ⟨[], rfl, hnothing⟩
    · have hopening : isOpening (v ++ (z ++ rest)) = true := by
        obtain ⟨body, rfl⟩ := hv.head
        rfl
      obtain ⟨hwritten, hedepth⟩ := hopened.closedRight (hleft hopening) htoken ht hv hdepth hz
      exact ⟨v ++ z, by simp, ['\x7d'], _, by simpa using hwritten, hedepth⟩

/-- What has been read of an expression when reading stops is nothing, or the beginning of an expression. -/
theorem begins_of_readNode_error {levels : Nat} {text : List Char} {stop : Stop}
    (h : (readNode levels text : Except Stop (Expr ν × List Char)) = .error stop) :
    ∃ before, text = before ++ stop.rest ∧ (before = [] ∨ Begins ν levels before) := by
  induction levels generalizing text with
  | zero =>
    cases h
    exact ⟨[], rfl, .inl rfl⟩
  | succ levels ih =>
    have hoperand : ∀ {text : List Char},
        (readOperand (readNode levels) text : Except Stop (Expr ν × List Char)) = .error stop →
          ∃ before, text = before ++ stop.rest ∧ (before = [] ∨ Begins ν levels before) :=
      fun hread => ih (of_readOperand_error hread).2
    rw [readNode_succ] at h
    cases text with
    | nil =>
      cases h
      exact ⟨[], rfl, .inl rfl⟩
    | cons c body =>
      simp only [expect] at h
      split at h
      case isFalse =>
        cases h
        exact ⟨[], rfl, .inl rfl⟩
      rename_i hc
      subst hc
      suffices hbegins : ∃ before, '\x7b' :: body = before ++ stop.rest ∧ Begins ν (levels + 1) before by
        obtain ⟨before, htext, hbefore⟩ := hbegins
        exact ⟨before, htext, .inr hbefore⟩
      -- The parts of the body are peeled off in their order, each with the case that reading stops in it.
      rw [readBody, thenRead_readBlanks] at h
      rcases thenRead_eq_error_iff.1 h with hleft | ⟨l, t₁, hleft, hrest⟩
      · obtain ⟨s, hs, hbody⟩ := exists_skipBlanks body
        obtain ⟨before, hskip, hbefore⟩ := hoperand hleft
        rw [hskip] at hbody
        refine ⟨'\x7b' :: (s ++ before), by rw [hbody]; simp, ?_⟩
        rcases hbefore with rfl | hbefore
        · rw [List.append_nil]
          exact (Opened.bare (ν := ν) hs).begins
        · exact begins_left hs hbefore
      obtain ⟨p, hp, hopened⟩ := opened_of_readOperand hleft
      rcases thenRead_eq_error_iff.1 hrest with htoken | ⟨token, t₂, htoken, hend⟩
      · refine ⟨p, ?_, hopened.begins⟩
        rw [hp, rest_of_readToken_error htoken]
      obtain ⟨rfl, hIsToken, _⟩ := readToken_eq_ok_iff.1 htoken
      obtain ⟨t, ht, htext⟩ := exists_skipBlanks t₂
      rw [thenRead_readBlanks] at hend
      split at hend
      · cases hend
        refine ⟨p ++ (token ++ t), ?_, hopened.begins_token hIsToken ht⟩
        rw [hp]
        simpa using htext
      · rename_i hright
        have hl : isOpening (Text.skipBlanks t₂) = true → l.isEmpty = false := by
          intro hopening
          simpa [hopening] using hright
        obtain ⟨before, hskip, hbefore⟩ := begins_of_readRight_error hoperand hopened hIsToken ht hl hend
        refine ⟨_, ?_, hbefore⟩
        rw [hp, htext, hskip]
        simp

/-! ### The whole text -/

/-- One expression, the blanks around it, and the end of the text. -/
def readWhole : List Char → Except Stop (Expr ν × List Char) :=
  thenRead readBlanks fun _ => thenRead (readNode nestingLimit) fun e => thenRead readBlanks fun _ text =>
    if text.isEmpty then .ok (e, text) else .error ⟨text, .trailingText⟩

theorem readAll_eq_error_iff {text : List Char} {stop : Stop} :
    (readAll text : Except Stop (Expr ν)) = .error stop ↔
      (readWhole text : Except Stop (Expr ν × List Char)) = .error stop := by
  simp only [readAll, readWhole, thenRead, readBlanks]
  cases (readNode nestingLimit (Text.skipBlanks text) : Except Stop (Expr ν × List Char)) with
  | error stop' => simp [bind, Except.bind]
  | ok result =>
    obtain ⟨e, rest⟩ := result
    simp only [bind, Except.bind]
    cases (Text.skipBlanks rest).isEmpty with
    | true => simp [pure, Except.pure]
    | false => simp [throw, throwThe, MonadExceptOf.throw]

theorem looksOneAhead_readWhole : LooksOneAhead (readWhole (ν := ν)) := by
  refine looksOneAhead_readBlanks.thenRead fun _ => (looksOneAhead_readNode _).thenRead fun e =>
    looksOneAhead_readBlanks.thenRead fun _ => ?_
  refine LooksOneAhead.ite ?_ (looksOneAhead_done e) (looksOneAhead_stop _)
  intro c rest rest'
  rfl

/-- What has been read when reading stops is the beginning of a text that is read as an expression. -/
theorem begins_of_readAll_error {text : List Char} {stop : Stop}
    (h : (readAll text : Except Stop (Expr ν)) = .error stop) :
    ∃ before, text = before ++ stop.rest ∧
      ∃ after, ∃ e : Expr ν, (readAll (before ++ after) : Except Stop (Expr ν)) = .ok e := by
  have hread : ∀ {s body z : List Char} {e : Expr ν}, Blanks s → Written body e → e.depth ≤ nestingLimit → Blanks z →
      readAll (s ++ (body ++ z)) = .ok e := by
    intro s body z e hs hwritten hdepth hz
    refine readAll_eq_ok_iff.2 ⟨z, ?_, hz⟩
    rw [skipBlanks_append hs (hwritten.stopsAt_isBlank z), readNode_of_written hwritten hdepth]
  obtain ⟨s, hs, htext⟩ := exists_skipBlanks text
  have hwhole := readAll_eq_error_iff.1 h
  rw [readWhole, thenRead_readBlanks] at hwhole
  rcases thenRead_eq_error_iff.1 hwhole with hnode | ⟨e, rest, hnode, hend⟩
  · obtain ⟨before, hskip, hbefore⟩ := begins_of_readNode_error hnode
    refine ⟨s ++ before, by rw [htext, hskip, List.append_assoc], ?_⟩
    have hbegins : Begins ν nestingLimit before := by
      rcases hbefore with rfl | hbefore
      · exact begins_nil (by decide)
      · exact hbefore
    obtain ⟨after, e, hwritten, hdepth⟩ := hbegins
    exact ⟨after, e, by simpa using hread hs hwritten hdepth blanks_nil⟩
  · rw [thenRead_readBlanks] at hend
    split at hend
    · cases hend
    · cases hend
      obtain ⟨body, hskip, hwritten, hdepth⟩ := written_of_readNode hnode
      obtain ⟨z, hz, hrest⟩ := exists_skipBlanks rest
      have hsplit : text = s ++ (body ++ (z ++ Text.skipBlanks rest)) := by rwa [← hrest, ← hskip]
      exact ⟨s ++ (body ++ z), by simpa using hsplit, [], e, by simpa using hread hs hwritten hdepth hz⟩

/-! ### Bytes -/

theorem byteCount_append (s t : List Char) : byteCount (s ++ t) = byteCount s + byteCount t := by
  induction s with
  | nil => simp [byteCount]
  | cons c s ih =>
    have hcons : ∀ text, byteCount (c :: text) = c.utf8Size + byteCount text := fun text => rfl
    rw [List.cons_append, hcons, hcons, ih]
    omega

theorem byteCount_eq_utf8ByteSize (text : List Char) : byteCount text = (String.ofList text).utf8ByteSize := by
  induction text with
  | nil => rfl
  | cons c text ih =>
    rw [String.ofList_cons, String.utf8ByteSize_append, String.utf8ByteSize_singleton, ← ih]
    rfl

end ExprCalculus.Reader

namespace ExprCalculus.Expr

open Reader

variable {ν : Type} [Numeral ν]

/-- Some text that begins so is read as an expression. -/
def CanGoOn (ν : Type) [Numeral ν] (text : String) : Prop :=
  ∃ more, ∃ e : Expr ν, Expr.read (text ++ more) = .ok e

theorem read_of_readAll_error {text : String} {stop : Stop}
    (h : (readAll text.toList : Except Stop (Expr ν)) = .error stop) :
    (Expr.read text : Except (ExprFault ν) (Expr ν)) = .error (stop.error text.toList) := by
  rw [Expr.read, h]
  rfl

theorem read_eq_ok_iff_readAll {text : String} {e : Expr ν} : Expr.read text = .ok e ↔ readAll text.toList = .ok e := by
  cases h : (readAll text.toList : Except Stop (Expr ν)) with
  | error stop => simp [read_of_readAll_error h]
  | ok e' =>
    have hread : (Expr.read text : Except (ExprFault ν) (Expr ν)) = .ok e' := by
      rw [Expr.read, h]
      rfl
    simp [hread]

/-- What stands in front of the position, counted in bytes, can go on. With the next character it cannot. -/
def GoesOnUpTo (ν : Type) [Numeral ν] (text : String) (position : Nat) : Prop :=
  ∃ before after, text = before ++ after ∧ before.utf8ByteSize = position ∧ CanGoOn ν before ∧
    ∀ c rest, after.toList = c :: rest → ¬CanGoOn ν (before.push c)

/-- Reading fails at the first place where the text cannot go on. This place is between two characters. -/
theorem read_error_position {text : String} {fault : ExprFault ν} (h : Expr.read text = .error fault) :
    ∃ position, fault.kind = .malformedText position ∧ position ≤ text.utf8ByteSize ∧
      (String.Pos.Raw.mk position).IsValid text ∧ GoesOnUpTo ν text position := by
  cases hall : (readAll text.toList : Except Stop (Expr ν)) with
  | ok e =>
    rw [read_eq_ok_iff_readAll.2 hall] at h
    cases h
  | error stop =>
    obtain rfl := Except.error.inj ((read_of_readAll_error hall).symm.trans h)
    obtain ⟨before, htext, more, e, hmore⟩ := begins_of_readAll_error hall
    have hstring : text = String.ofList before ++ String.ofList stop.rest := by
      rw [← String.ofList_append, ← htext, String.ofList_toList]
    have hposition : (String.ofList before).utf8ByteSize = byteCount text.toList - byteCount stop.rest := by
      rw [htext, byteCount_append, byteCount_eq_utf8ByteSize before]
      omega
    refine ⟨_, rfl, ?_, ?_, String.ofList before, String.ofList stop.rest, hstring, hposition, ?_, ?_⟩
    · rw [← hposition, hstring, String.utf8ByteSize_append]
      omega
    · exact String.Pos.Raw.isValid_iff_exists_append.2 ⟨_, _, hstring, by rw [← hposition]; rfl⟩
    · refine ⟨String.ofList more, e, read_eq_ok_iff_readAll.2 ?_⟩
      rwa [← String.ofList_append, String.toList_ofList]
    · intro c rest hafter hgoes
      rw [String.toList_ofList] at hafter
      obtain ⟨more', e', hread⟩ := hgoes
      rw [read_eq_ok_iff_readAll, String.toList_append, String.toList_push, String.toList_ofList, List.append_assoc,
        List.singleton_append] at hread
      have hwhole := readAll_eq_error_iff.1 hall
      obtain ⟨before', htext', hsame⟩ := looksOneAhead_readWhole text.toList c rest (by rw [hwhole]; exact hafter)
      -- Both ways of cutting the text leave the same rest, so they cut it at one place.
      obtain rfl : before = before' := by
        rw [htext, hafter] at htext'
        exact List.append_cancel_right htext'
      have hfails := readAll_eq_error_iff.2 ((hsame more'.toList).trans (by rw [hwhole]; rfl))
      rw [hread] at hfails
      cases hfails

/-- The token that is missing is missed after the operand and the blank, of which the letter takes two bytes. -/
theorem read_error_position_noToken :
    (Expr.read "\x7b\x7bé\x7d \x7d" : Except (ExprFault Float) (Expr Float)) = .error (.malformed 6 .noToken) ∧
      ∃ position, (ExprFault.malformed 6 .noToken : ExprFault Float).kind = .malformedText position ∧
        position ≤ "\x7b\x7bé\x7d \x7d".utf8ByteSize ∧ (String.Pos.Raw.mk position).IsValid "\x7b\x7bé\x7d \x7d" ∧
        GoesOnUpTo Float "\x7b\x7bé\x7d \x7d" position :=
  have hread : (Expr.read "\x7b\x7bé\x7d \x7d" : Except (ExprFault Float) (Expr Float)) = .error (.malformed 6 .noToken) :=
    rfl
  ⟨hread, read_error_position hread⟩

end ExprCalculus.Expr
