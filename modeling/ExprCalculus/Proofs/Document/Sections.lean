import ExprCalculus.Proofs.Document.PartRuns

/-!
# Reading documents by the grammar

A section ends where a word has no colon after it: that word is the title of the next section. So the readers of pairs
and sections recognize their parts, and a document is read just when its text, without the blanks that its ends may
have, is a run of sections.
-/

namespace ExprCalculus.Document

open Reader (Blanks StopsAt skipBlanks_append exists_skipBlanks)

/-! ### Pairs -/

theorem PairAt.starts {text rest : List Char} {p : String × List Value} (h : PairAt text p rest) :
    StartsWord text := by
  cases h with
  | bare hkey hs ht hrest => exact hkey.head _
  | valued hkey hs ht hvalues => exact hkey.head _

theorem PairAt.isWord {text rest : List Char} {p : String × List Value} (h : PairAt text p rest) :
    IsWord p.1.toList := by
  cases h with
  | bare hkey => simpa using hkey
  | valued hkey => simpa using hkey

theorem ValuesAt.consumes {text rest : List Char} {values : List Value} (h : ValuesAt text values rest) :
    ∃ before, text = before ++ rest := by
  induction h with
  | @last token rest v htoken hv hrest => exact ⟨token, rfl⟩
  | @cons token s t text rest v values htoken hv hs ht hmore ih =>
    obtain ⟨before, rfl⟩ := ih
    exact ⟨token ++ (s ++ ',' :: (t ++ before)), by simp⟩

theorem ValuesAt.ends {text rest : List Char} {values : List Value} (h : ValuesAt text values rest) :
    EndsValue rest := by
  induction h with
  | last htoken hv hrest => exact hrest
  | cons htoken hv hs ht hmore ih => exact ih

theorem EndsValue.stopsAt_isWordStart {rest : List Char} (h : EndsValue rest) : StopsAt isWordStart rest := by
  intro c hc
  have hends : endsValue c = true := by simpa using h c hc
  exact not_isWordStart_of_not_isWordChar (not_isWordChar_of_endsValue hends)

theorem EndsLine.endsValue {rest : List Char} (h : EndsLine rest) : EndsValue rest := by
  intro c hc
  rcases h c hc with rfl | rfl <;> rfl

theorem PairAt.consumes {text rest : List Char} {p : String × List Value} (h : PairAt text p rest) :
    ∃ before, before ≠ [] ∧ text = before ++ rest := by
  cases h with
  | @bare key s t rest hkey hs ht hrest => exact ⟨key ++ (s ++ ':' :: t), by simp, by simp⟩
  | @valued key s t text rest values hkey hs ht hvalues =>
    obtain ⟨before, rfl⟩ := hvalues.consumes
    exact ⟨key ++ (s ++ ':' :: (t ++ before)), by simp, by simp⟩

theorem PairAt.ends {text rest : List Char} {p : String × List Value} (h : PairAt text p rest) :
    EndsValue rest := by
  cases h with
  | bare hkey hs ht hrest => exact hrest.endsValue
  | valued hkey hs ht hvalues => exact hvalues.ends

/-- Where values could begin but do not, and a word or nothing follows, the line ends. -/
theorem endsLine_of_resumes {rest : List Char} (hstart : StopsAt Text.isInlineBlank rest) (hends : EndsValue rest)
    (h : Resumes (Text.skipBlanks rest)) : EndsLine rest := by
  intro c hc
  cases rest with
  | nil => cases hc
  | cons d tail =>
    obtain rfl := Option.some.inj hc
    have hend : endsValue d = true := by simpa using hends d rfl
    have hinline := hstart d rfl
    simp only [endsValue, Bool.or_eq_true, beq_iff_eq] at hend
    rcases hend with ((((rfl | rfl) | rfl) | rfl) | rfl) | rfl
    · cases h ',' rfl
    · cases hinline
    · cases hinline
    · exact .inl rfl
    · exact .inr rfl
    · cases h ';' rfl

theorem recognizes_readPair : Recognizes readPair id PairAt Resumes where
  starts h := h.starts
  consumes h := h.consumes
  ends h := h.ends.stopsAt_isWordStart
  follows h := h.starts.resumes
  sound := by
    intro text p next ht h
    obtain ⟨key, s, t, more, rfl, hkey, hs, hblank, hmore, rfl, rfl⟩ := readPair_eq_ok_iff.1 h
    have hfinish : NoTrailingBlank more := by
      have hall : NoTrailingBlank (key ++ (s ++ ':' :: t) ++ more) := by simpa using ht.finish
      exact hall.of_append
    refine ⟨hkey.head _, ?_⟩
    rcases readValues_cases hmore with ⟨hnone, hends⟩ | hvalues
    · rw [hnone, trim_of_noTrailingBlank hfinish]
      refine ⟨isTrimmed_skipBlanks hfinish, ?_⟩
      intro hresumes
      exact ⟨_, more, rfl, .bare hkey hs hblank (endsLine_of_resumes hmore hends hresumes), rfl⟩
    · obtain ⟨before, hbefore⟩ := hvalues.consumes
      rw [hbefore] at hfinish
      rw [trim_of_noTrailingBlank hfinish.of_append]
      refine ⟨isTrimmed_skipBlanks hfinish.of_append, ?_⟩
      intro _
      exact ⟨_, _, rfl, .valued hkey hs hblank hvalues, rfl⟩
  complete := by
    intro text p rest ht hpart hresumes
    have htrim : Text.trim rest = Text.skipBlanks rest := by
      obtain ⟨before, _, rfl⟩ := hpart.consumes
      exact trim_of_noTrailingBlank ht.finish.of_append
    cases hpart with
    | @bare key s t rest hkey hs hblank hrest =>
      refine readPair_eq_ok_iff.2 ⟨key, s, t, rest, rfl, hkey, hs, hblank, hrest.stopsAt_isInlineBlank, ?_⟩
      rw [readValues_of_endsLine hrest]
      exact ⟨rfl, htrim.symm⟩
    | @valued key s t text rest values hkey hs hblank hvalues =>
      obtain ⟨stop, hstop⟩ := readNextValue_of_resumes hresumes
      refine readPair_eq_ok_iff.2 ⟨key, s, t, text, rfl, hkey, hs, hblank, hvalues.stopsAt_isInlineBlank, ?_⟩
      rw [readValues_of_valuesAt hvalues hstop]
      exact ⟨rfl, htrim.symm⟩

/-! ### Sections -/

/-- What may follow a section: nothing, or a word with blanks and no colon after it. -/
def EndsSection (next : List Char) : Prop :=
  next = [] ∨ ∃ title gap more, next = title ++ (gap ++ more) ∧ IsWord title ∧ Gap gap ∧ StartsWord more

theorem EndsSection.resumes {next : List Char} (h : EndsSection next) : Resumes next := by
  rcases h with rfl | ⟨title, gap, more, rfl, htitle, _, _⟩
  · exact fun _ hc => nomatch hc
  · exact StartsWord.resumes (htitle.head _)

theorem Gap.stopsAt_isWordChar {gap : List Char} (h : Gap gap) (rest : List Char) :
    StopsAt isWordChar (gap ++ rest) := by
  obtain ⟨hne, hblanks⟩ := h
  cases gap with
  | nil => exact absurd rfl hne
  | cons c gap => exact stopsAt_cons (not_isWordChar_of_isBlank (hblanks c List.mem_cons_self))

theorem readPair_of_endsSection {next : List Char} (h : EndsSection next) : ∃ stop, readPair next = .error stop := by
  cases hread : readPair next with
  | error stop => exact ⟨stop, rfl⟩
  | ok result =>
    obtain ⟨key, s, t, more, hkeyText, hkey, hs, _⟩ := readPair_eq_ok_iff.1 hread
    rcases h with rfl | ⟨title, gap, more', htitleText, htitle, hgap, hstart⟩
    · simp at hkeyText
    · -- The word is read in one way, so a colon and a gap with a word would follow it both.
      have hwordKey : readWord next = .ok (String.ofList key, s ++ ':' :: (t ++ more)) :=
        readWord_eq_ok_iff.2 ⟨key, hkeyText, rfl, hkey, stopsAt_isWordChar_before_mark hs⟩
      have hwordTitle : readWord next = .ok (String.ofList title, gap ++ more') :=
        readWord_eq_ok_iff.2 ⟨title, htitleText, rfl, htitle, hgap.stopsAt_isWordChar _⟩
      have hsame : s ++ ':' :: (t ++ more) = gap ++ more' :=
        (Prod.mk.inj (Except.ok.inj (hwordKey.symm.trans hwordTitle))).2
      have hblanks : Blanks s := fun c hc => isBlank_of_isInlineBlank (hs c hc)
      have hmark : Text.skipBlanks (s ++ ':' :: (t ++ more)) = ':' :: (t ++ more) :=
        skipBlanks_append hblanks (stopsAt_cons rfl)
      rw [hsame, skipBlanks_append hgap.2 hstart.stopsAt_isBlank] at hmark
      obtain ⟨c, tail, rfl, hc⟩ := hstart
      obtain ⟨rfl, _⟩ := List.cons.inj hmark
      cases hc

theorem readTitle_eq_ok_iff {text rest : List Char} {title : String} (ht : NoTrailingBlank text) :
    readTitle text = .ok (title, rest) ↔
      ∃ word after, text = word ++ after ∧ title = String.ofList word ∧ IsWord word ∧ StopsAt isWordChar after ∧
        rest = Text.skipBlanks after := by
  unfold readTitle
  rw [bind_eq_ok_iff]
  constructor
  · rintro ⟨⟨name, after⟩, hword, htrim⟩
    obtain ⟨word, rfl, rfl, hw, hafter⟩ := readWord_eq_ok_iff.1 hword
    obtain ⟨rfl, rfl⟩ := Prod.mk.inj (Except.ok.inj htrim)
    exact ⟨word, after, rfl, rfl, hw, hafter, trim_of_noTrailingBlank ht.of_append⟩
  · rintro ⟨word, after, rfl, rfl, hw, hafter, rfl⟩
    refine ⟨(String.ofList word, after), readWord_eq_ok_iff.2 ⟨word, rfl, rfl, hw, hafter⟩, ?_⟩
    simp only [trim_of_noTrailingBlank ht.of_append]
    rfl

/-- A section as it is kept, its pairs in a dictionary. -/
def keepSection (s : String × List (String × List Value)) : String × DocumentSection := (s.1, Dictionary.ofList s.2)

theorem readSection_eq_ok_iff {text next : List Char} {entry : String × DocumentSection} (ht : IsTrimmed text) :
    readSection text = .ok (entry, next) ↔
      ∃ title rest pairs, readTitle text = .ok (title, rest) ∧ atLeastOnce readPair rest = .ok (pairs, next) ∧
        entry = keepSection (title, pairs) := by
  unfold readSection
  rw [skipInlineBlanks_of_stopsAt ht.start]
  simp only [bind_eq_ok_iff]
  constructor
  · rintro ⟨⟨title, rest⟩, htitle, ⟨pairs, after⟩, hpairs, hentry⟩
    obtain ⟨rfl, rfl⟩ := Prod.mk.inj (Except.ok.inj hentry)
    exact ⟨title, rest, pairs, htitle, hpairs, rfl⟩
  · rintro ⟨title, rest, pairs, htitle, hpairs, rfl⟩
    exact ⟨(title, rest), htitle, (pairs, next), hpairs, rfl⟩

theorem SectionAt.endsSection {text rest : List Char} {s : String × List (String × List Value)}
    (h : SectionAt text s rest) : EndsSection text := by
  cases h with
  | @intro title gap text rest pairs htitle hgap hpairs =>
    obtain ⟨_, _, hpair⟩ := hpairs.head
    exact .inr ⟨title, gap, text, rfl, htitle, hgap, hpair.starts⟩

theorem SectionAt.starts {text rest : List Char} {s : String × List (String × List Value)}
    (h : SectionAt text s rest) : StartsWord text := by
  cases h with
  | intro htitle hgap hpairs => exact htitle.head _

theorem SectionAt.consumes {text rest : List Char} {s : String × List (String × List Value)}
    (h : SectionAt text s rest) : ∃ before, before ≠ [] ∧ text = before ++ rest := by
  cases h with
  | @intro title gap text rest pairs htitle hgap hpairs =>
    obtain ⟨before, hne, rfl⟩ := hpairs.consumes PairAt.consumes
    exact ⟨title ++ (gap ++ before), by simp [hne], by simp⟩

theorem SectionAt.ends {text rest : List Char} {s : String × List (String × List Value)}
    (h : SectionAt text s rest) : StopsAt isWordStart rest := by
  cases h with
  | intro htitle hgap hpairs => exact hpairs.ends fun hpair => hpair.ends.stopsAt_isWordStart

theorem recognizes_readSection : Recognizes readSection keepSection SectionAt EndsSection where
  starts h := h.starts
  consumes h := h.consumes
  ends h := h.ends
  follows h := h.endsSection
  sound := by
    intro text entry next ht h
    obtain ⟨_, rest, pairs, htitle, hpairs, rfl⟩ := (readSection_eq_ok_iff ht).1 h
    obtain ⟨title, after, rfl, rfl, hword, hafter, rfl⟩ := (readTitle_eq_ok_iff ht.finish).1 htitle
    have htrimmed := isTrimmed_skipBlanks ht.finish.of_append
    obtain ⟨hstart, hnext, hrun⟩ := recognizes_readPair.atLeastOnce_sound htrimmed hpairs
    refine ⟨hword.head _, hnext, ?_⟩
    intro hresumes
    obtain ⟨pairs', rest, rfl, hat, hskip⟩ := hrun hresumes
    obtain ⟨gap, hgap, hsplit⟩ := exists_skipBlanks after
    rw [hsplit] at hafter ⊢
    have hne : gap ≠ [] :=
      hstart.gap_ne_nil fun c hc => not_isWordStart_of_not_isWordChar (hafter c hc)
    exact ⟨_, rest, by rw [List.map_id], .intro hword ⟨hne, hgap⟩ hat, hskip⟩
  complete := by
    intro text s rest ht hpart hfollow
    cases hpart with
    | @intro title gap text rest pairs htitle hgap hpairs =>
      obtain ⟨_, _, hpair⟩ := hpairs.head
      obtain ⟨stop, hstop⟩ := readPair_of_endsSection hfollow
      have hskip : Text.skipBlanks (gap ++ text) = text := skipBlanks_append hgap.2 hpair.starts.stopsAt_isBlank
      have htrimmed := isTrimmed_skipBlanks (ht.finish.of_append (s := title))
      rw [hskip] at htrimmed
      have hread := recognizes_readPair.atLeastOnce_complete htrimmed hpairs hfollow.resumes hstop
      refine (readSection_eq_ok_iff ht).2 ⟨String.ofList title, text, pairs, ?_, ?_, rfl⟩
      · exact (readTitle_eq_ok_iff ht.finish).2
          ⟨title, gap ++ text, rfl, rfl, htitle, hgap.stopsAt_isWordChar _, hskip.symm⟩
      · rwa [List.map_id] at hread

/-! ### Documents -/

theorem atLeastOnce_readSection_iff {text : List Char} (ht : IsTrimmed text)
    (entries : List (String × DocumentSection)) :
    (∃ rest, atLeastOnce readSection text = .ok (entries, rest) ∧ Blanks rest) ↔
      ∃ sections, DocumentAt text sections ∧ entries = sections.map keepSection := by
  constructor
  · rintro ⟨next, hread, hblanks⟩
    obtain ⟨_, hnext, hrun⟩ := recognizes_readSection.atLeastOnce_sound ht hread
    obtain rfl := eq_nil_of_blanks hblanks hnext.finish
    obtain ⟨sections, rest, rfl, hat, hskip⟩ := hrun fun _ hc => nomatch hc
    obtain ⟨before, _, rfl⟩ := hat.consumes SectionAt.consumes
    obtain rfl := eq_nil_of_blanks (Reader.skipBlanks_eq_nil_iff.1 hskip.symm) ht.finish.of_append
    exact ⟨sections, hat, rfl⟩
  · rintro ⟨sections, hat, rfl⟩
    have hstop : readSection (Text.skipBlanks []) = .error ⟨[], .mark⟩ := rfl
    have hread := recognizes_readSection.atLeastOnce_complete ht hat (.inl rfl) hstop
    exact ⟨[], hread, fun _ hc => nomatch hc⟩

/-! ### Blanks around a document -/

theorem readWord_append_blanks {text s rest : List Char} {word : String} (hs : Blanks s) :
    readWord (text ++ s) = .ok (word, rest) ↔ ∃ after, readWord text = .ok (word, after) ∧ rest = after ++ s := by
  have hends : ∀ after, StopsAt isWordChar after → StopsAt isWordChar (after ++ s) := by
    intro after hafter
    cases after with
    | cons c after => exact fun d hd => hafter d hd
    | nil =>
      cases s with
      | nil => exact hafter
      | cons c s => exact stopsAt_cons (not_isWordChar_of_isBlank (hs c List.mem_cons_self))
  constructor
  · intro h
    -- The first character decides whether there is a word at all, and blanks have none.
    obtain ⟨_, htext, _, hword, _⟩ := readWord_eq_ok_iff.1 h
    obtain ⟨d, tail', heq, hd⟩ := hword.head rest
    rw [← htext] at heq
    cases text with
    | nil =>
      have hblank := hs d (by rw [← List.nil_append s, heq]; exact List.mem_cons_self)
      rw [not_isWordStart_of_not_isWordChar (not_isWordChar_of_isBlank hblank)] at hd
      cases hd
    | cons c tail =>
      obtain ⟨rfl, _⟩ := List.cons.inj heq
      have hread : readWord (c :: tail) =
          .ok (String.ofList (c :: tail.takeWhile isWordChar), tail.dropWhile isWordChar) := by
        simp only [readWord, hd, if_true]
      obtain ⟨w, hsplit, hw, hword', hafter⟩ := readWord_eq_ok_iff.1 hread
      have hlonger : c :: tail ++ s = w ++ (tail.dropWhile isWordChar ++ s) := by
        rw [hsplit, List.append_assoc]
      have hmore := readWord_eq_ok_iff.2 ⟨w, hlonger, hw, hword', hends _ hafter⟩
      obtain ⟨rfl, rfl⟩ := Prod.mk.inj (Except.ok.inj (h.symm.trans hmore))
      exact ⟨_, hread, rfl⟩
  · rintro ⟨after, h, rfl⟩
    obtain ⟨w, rfl, hw, hword, hafter⟩ := readWord_eq_ok_iff.1 h
    exact readWord_eq_ok_iff.2 ⟨w, by rw [List.append_assoc], hw, hword, hends _ hafter⟩

/-- Blanks at the end of a text are lost with its first title. -/
theorem readTitle_append_blanks {text s : List Char} (ht : NoTrailingBlank text) (hs : Blanks s) {title : String}
    {rest : List Char} : readTitle (text ++ s) = .ok (title, rest) ↔ readTitle text = .ok (title, rest) := by
  have htrim : ∀ after, readWord text = .ok (title, after) → Text.trim (after ++ s) = Text.trim after := by
    intro after h
    obtain ⟨w, rfl, _⟩ := readWord_eq_ok_iff.1 h
    rw [trim_append_blanks ht.of_append hs, trim_of_noTrailingBlank ht.of_append]
  have hread : ∀ {t : List Char},
      readTitle t = .ok (title, rest) ↔ ∃ after, readWord t = .ok (title, after) ∧ Text.trim after = rest := by
    intro t
    unfold readTitle
    rw [bind_eq_ok_iff]
    constructor
    · rintro ⟨⟨word, after⟩, hword, h⟩
      obtain ⟨rfl, rfl⟩ := Prod.mk.inj (Except.ok.inj h)
      exact ⟨after, hword, rfl⟩
    · rintro ⟨after, hword, rfl⟩
      exact ⟨(title, after), hword, rfl⟩
  rw [hread, hread]
  constructor
  · rintro ⟨_, hword, rfl⟩
    obtain ⟨after, hword', rfl⟩ := (readWord_append_blanks hs).1 hword
    exact ⟨after, hword', (htrim after hword').symm⟩
  · rintro ⟨after, hword, rfl⟩
    exact ⟨after ++ s, (readWord_append_blanks hs).2 ⟨after, hword, rfl⟩, htrim after hword⟩

/-- The text without spaces and tabs in front and blanks at the end. -/
def trimEnds (text : List Char) : List Char := Text.dropTrailingBlanks (Text.skipInlineBlanks text)

theorem isTrimmed_trimEnds (text : List Char) : IsTrimmed (trimEnds text) := by
  obtain ⟨s, _, hsplit, hfinish⟩ := exists_dropTrailingBlanks (Text.skipInlineBlanks text)
  refine ⟨stopsAt_of_append (t := s) ?_, hfinish⟩
  rw [trimEnds, ← hsplit]
  exact Reader.stopsAt_dropWhile _ _

theorem readSection_trimEnds {text : List Char} {r : Reading (String × DocumentSection)} :
    readSection text = .ok r ↔ readSection (trimEnds text) = .ok r := by
  obtain ⟨s, hs, hsplit, hfinish⟩ := exists_dropTrailingBlanks (Text.skipInlineBlanks text)
  unfold readSection
  rw [skipInlineBlanks_of_stopsAt (isTrimmed_trimEnds text).start, hsplit, bind_eq_ok_iff, bind_eq_ok_iff]
  exact exists_congr fun title => and_congr_left fun _ => readTitle_append_blanks hfinish hs

theorem atLeastOnce_readSection_trimEnds (text : List Char) {r : Reading (List (String × DocumentSection))} :
    atLeastOnce readSection text = .ok r ↔ atLeastOnce readSection (trimEnds text) = .ok r := by
  unfold atLeastOnce
  rw [bind_eq_ok_iff, bind_eq_ok_iff]
  exact exists_congr fun first => and_congr_left fun _ => readSection_trimEnds

/-! ### Whole texts -/

theorem readSections_eq_ok_iff {text rest : List Char} {d : TaskDocument} :
    readSections text = .ok (d, rest) ↔
      ∃ entries, atLeastOnce readSection text = .ok (entries, rest) ∧
        d = entries.foldl (fun d entry => addSection d entry.1 entry.2) ∅ := by
  unfold readSections
  rw [bind_eq_ok_iff]
  constructor
  · rintro ⟨⟨entries, after⟩, hread, h⟩
    obtain ⟨rfl, rfl⟩ := Prod.mk.inj (Except.ok.inj h)
    exact ⟨entries, hread, rfl⟩
  · rintro ⟨entries, hread, rfl⟩
    exact ⟨(entries, rest), hread, rfl⟩

theorem ofText_of_blanks {text : String} (h : Blanks (withoutComments text.toList)) : ofText none text = .ok ∅ := by
  have hall : (withoutComments text.toList).all Text.isBlank = true := List.all_eq_true.2 h
  simp only [ofText, hall, if_true]
  rfl

theorem ofText_eq_ok_iff {text : String} (hne : ¬Blanks (withoutComments text.toList)) {d : TaskDocument} :
    ofText none text = .ok d ↔
      ∃ rest, readSections (withoutComments text.toList) = .ok (d, rest) ∧ Blanks rest := by
  have hall : (withoutComments text.toList).all Text.isBlank = false :=
    Bool.eq_false_iff.2 fun h => hne (List.all_eq_true.1 h)
  simp only [ofText, hall, Bool.false_eq_true, if_false]
  cases hread : readSections (withoutComments text.toList) with
  | error stop =>
    constructor
    · intro h
      cases h
    · rintro ⟨_, h, _⟩
      cases h
  | ok result =>
    obtain ⟨d', rest⟩ := result
    -- What is left of the reading is the test of the rest.
    change (if !rest.all Text.isBlank then Except.error (DocumentFault.unread rest) else .ok d') = .ok d ↔ _
    cases hrest : rest.all Text.isBlank with
    | true =>
      have hblanks : Blanks rest := List.all_eq_true.1 hrest
      constructor
      · intro h
        obtain rfl := Except.ok.inj h
        exact ⟨rest, rfl, hblanks⟩
      · rintro ⟨_, h, _⟩
        obtain ⟨rfl, rfl⟩ := Prod.mk.inj (Except.ok.inj h)
        rfl
    | false =>
      constructor
      · intro h
        cases h
      · rintro ⟨_, h, hblanks⟩
        obtain ⟨rfl, rfl⟩ := Prod.mk.inj (Except.ok.inj h)
        rw [List.all_eq_true.2 hblanks] at hrest
        cases hrest

/-- A text of which something is left without comments is read just when what is left is a document. -/
theorem ofText_eq_ok_iff_documentAt {text : String} (hne : ¬Blanks (withoutComments text.toList)) {d : TaskDocument} :
    ofText none text = .ok d ↔
      ∃ sections, DocumentAt (trimEnds (withoutComments text.toList)) sections ∧
        d = (sections.map keepSection).foldl (fun d entry => addSection d entry.1 entry.2) ∅ := by
  have hiff := atLeastOnce_readSection_iff (isTrimmed_trimEnds (withoutComments text.toList))
  simp only [ofText_eq_ok_iff hne, readSections_eq_ok_iff,
    atLeastOnce_readSection_trimEnds (withoutComments text.toList)]
  constructor
  · rintro ⟨rest, ⟨entries, hread, rfl⟩, hblanks⟩
    obtain ⟨sections, hat, rfl⟩ := (hiff entries).1 ⟨rest, hread, hblanks⟩
    exact ⟨sections, hat, rfl⟩
  · rintro ⟨sections, hat, rfl⟩
    obtain ⟨rest, hread, hblanks⟩ := (hiff _).2 ⟨sections, hat, rfl⟩
    exact ⟨rest, ⟨_, hread, rfl⟩, hblanks⟩

end ExprCalculus.Document
