import ExprCalculus.Proofs.Document.Grammar

/-!
# Runs of parts

Pairs and sections are read alike: one part after the other, as long as the reader succeeds, and the blanks after a
part go with it. `Recognizes` says when a reader does this by the grammar of one part, and then `atLeastOnce` does it
by the grammar of a run.
-/

namespace ExprCalculus.Document

open Reader (Blanks StopsAt dropWhile_append_stop stopsAt_dropWhile skipBlanks_append exists_skipBlanks)

/-! ### Blanks at the ends -/

def NoTrailingBlank (text : List Char) : Prop := StopsAt Text.isBlank text.reverse

/-- A text as the readers of parts find it. -/
structure IsTrimmed (text : List Char) : Prop where
  start : StopsAt Text.isInlineBlank text
  finish : NoTrailingBlank text

theorem stopsAt_of_append {p : Char → Bool} {s t : List Char} (h : StopsAt p (s ++ t)) : StopsAt p s := by
  intro c hc
  exact h c (by rw [List.head?_append, hc, Option.some_or])

theorem NoTrailingBlank.of_append {s t : List Char} (h : NoTrailingBlank (s ++ t)) : NoTrailingBlank t := by
  refine stopsAt_of_append (t := s.reverse) ?_
  rw [← List.reverse_append]
  exact h

theorem stopsAt_isInlineBlank_of_isBlank {text : List Char} (h : StopsAt Text.isBlank text) :
    StopsAt Text.isInlineBlank text := by
  intro c hc
  refine Bool.eq_false_iff.2 fun hinline => ?_
  have hblank := h c hc
  rw [isBlank_of_isInlineBlank hinline] at hblank
  cases hblank

theorem eq_nil_of_blanks {text : List Char} (hblanks : Blanks text) (h : NoTrailingBlank text) : text = [] := by
  cases hreverse : text.reverse with
  | nil => exact List.reverse_eq_nil_iff.1 hreverse
  | cons c rest =>
    have hmem : c ∈ text := by
      rw [← List.mem_reverse, hreverse]
      exact List.mem_cons_self
    have hstop := h c (by rw [hreverse]; rfl)
    rw [hblanks c hmem] at hstop
    cases hstop

theorem dropTrailingBlanks_append {text s : List Char} (h : NoTrailingBlank text) (hs : Blanks s) :
    Text.dropTrailingBlanks (text ++ s) = text := by
  have hreverse : Blanks s.reverse := fun c hc => hs c (List.mem_reverse.1 hc)
  rw [Text.dropTrailingBlanks, List.reverse_append, dropWhile_append_stop hreverse h, List.reverse_reverse]

theorem exists_dropTrailingBlanks (text : List Char) :
    ∃ s, Blanks s ∧ text = Text.dropTrailingBlanks text ++ s ∧ NoTrailingBlank (Text.dropTrailingBlanks text) := by
  have hsplit : text.reverse = text.reverse.takeWhile Text.isBlank ++ text.reverse.dropWhile Text.isBlank :=
    List.takeWhile_append_dropWhile.symm
  refine ⟨(text.reverse.takeWhile Text.isBlank).reverse, ?_, ?_, ?_⟩
  · intro c hc
    exact List.all_eq_true.1 List.all_takeWhile c (List.mem_reverse.1 hc)
  · rw [Text.dropTrailingBlanks, ← List.reverse_append, ← hsplit, List.reverse_reverse]
  · rw [NoTrailingBlank, Text.dropTrailingBlanks, List.reverse_reverse]
    exact stopsAt_dropWhile _ _

theorem trim_append_blanks {text s : List Char} (h : NoTrailingBlank text) (hs : Blanks s) :
    Text.trim (text ++ s) = Text.skipBlanks text := by
  obtain ⟨before, hbefore, htext⟩ := exists_skipBlanks text
  cases hskip : Text.skipBlanks text with
  | nil =>
    rw [hskip, List.append_nil] at htext
    obtain rfl : text = [] := eq_nil_of_blanks (htext ▸ hbefore) h
    have hnone : Text.skipBlanks s = [] := by
      have hall : Text.skipBlanks (s ++ []) = [] := skipBlanks_append hs (fun _ hc => nomatch hc)
      rwa [List.append_nil] at hall
    rw [List.nil_append, Text.trim, hnone]
    rfl
  | cons c rest =>
    have hstop : StopsAt Text.isBlank (c :: rest) := hskip ▸ stopsAt_dropWhile _ _
    rw [hskip] at htext
    have hfinish : NoTrailingBlank (c :: rest) := (htext ▸ h).of_append
    have hskips : Text.skipBlanks (before ++ (c :: rest ++ s)) = c :: rest ++ s :=
      skipBlanks_append hbefore (fun d hd => hstop d hd)
    rw [htext, List.append_assoc, Text.trim, hskips, dropTrailingBlanks_append hfinish hs]

theorem trim_of_noTrailingBlank {text : List Char} (h : NoTrailingBlank text) :
    Text.trim text = Text.skipBlanks text := by
  have htrim := trim_append_blanks (s := []) h (fun _ hc => nomatch hc)
  rwa [List.append_nil] at htrim

theorem isTrimmed_skipBlanks {text : List Char} (h : NoTrailingBlank text) : IsTrimmed (Text.skipBlanks text) := by
  obtain ⟨s, _, htext⟩ := exists_skipBlanks text
  refine ⟨stopsAt_isInlineBlank_of_isBlank (stopsAt_dropWhile _ _), ?_⟩
  rw [htext] at h
  exact h.of_append

/-! ### Runs of parts -/

/-- The text begins with a word. -/
def StartsWord (text : List Char) : Prop := ∃ c rest, text = c :: rest ∧ isWordStart c = true

theorem StartsWord.resumes {text : List Char} (h : StartsWord text) : Resumes text := by
  obtain ⟨c, rest, rfl, hc⟩ := h
  exact stopsAt_cons (by rw [hc]; rfl)

theorem StartsWord.stopsAt_isBlank {text : List Char} (h : StartsWord text) : StopsAt Text.isBlank text := by
  obtain ⟨c, rest, rfl, hc⟩ := h
  refine stopsAt_cons (Bool.eq_false_iff.2 fun hblank => ?_)
  rw [not_isWordStart_of_not_isWordChar (not_isWordChar_of_isBlank hblank)] at hc
  cases hc

/-- What follows a part does not start a word, so there is something between the part and the next word. -/
theorem StartsWord.gap_ne_nil {gap text : List Char} (h : StartsWord text)
    (hrest : StopsAt isWordStart (gap ++ text)) : gap ≠ [] := by
  rintro rfl
  obtain ⟨c, tail, rfl, hc⟩ := h
  rw [hrest c rfl] at hc
  cases hc

/-- The reader reads one part by its grammar, and the blanks after it. The grammar may know a part by more than what
the reader makes of it. For the reader to stop in time, something has to be known of what follows. -/
structure Recognizes {α β : Type} (read : List Char → Except Stop (Reading α)) (make : β → α)
    (Part : List Char → β → List Char → Prop) (Follow : List Char → Prop) : Prop where
  starts : ∀ {text b rest}, Part text b rest → StartsWord text
  consumes : ∀ {text b rest}, Part text b rest → ∃ before, before ≠ [] ∧ text = before ++ rest
  ends : ∀ {text b rest}, Part text b rest → StopsAt isWordStart rest
  follows : ∀ {text b rest}, Part text b rest → Follow text
  sound : ∀ {text a next}, IsTrimmed text → read text = .ok (a, next) →
    StartsWord text ∧ IsTrimmed next ∧
      (Resumes next → ∃ b rest, a = make b ∧ Part text b rest ∧ next = Text.skipBlanks rest)
  complete : ∀ {text b rest}, IsTrimmed text → Part text b rest → Follow (Text.skipBlanks rest) →
    read text = .ok (make b, Text.skipBlanks rest)

namespace RunAt

variable {β : Type} {Part : List Char → β → List Char → Prop} {text rest : List Char} {bs : List β}

theorem head (h : RunAt Part text bs rest) : ∃ b rest', Part text b rest' := by
  cases h with
  | last hpart => exact ⟨_, _, hpart⟩
  | cons hpart hgap hmore => exact ⟨_, _, hpart⟩

theorem part_of_mem (h : RunAt Part text bs rest) {b : β} (hb : b ∈ bs) : ∃ text rest, Part text b rest := by
  induction h with
  | last hpart =>
    obtain rfl := List.mem_singleton.1 hb
    exact ⟨_, _, hpart⟩
  | cons hpart hgap hmore ih =>
    rcases List.mem_cons.1 hb with rfl | hlater
    · exact ⟨_, _, hpart⟩
    · exact ih hlater

theorem ends {p : Char → Bool} (hp : ∀ {text b rest}, Part text b rest → StopsAt p rest)
    (h : RunAt Part text bs rest) : StopsAt p rest := by
  induction h with
  | last hpart => exact hp hpart
  | cons hpart hgap hmore ih => exact ih

theorem consumes (hp : ∀ {text b rest}, Part text b rest → ∃ before, before ≠ [] ∧ text = before ++ rest)
    (h : RunAt Part text bs rest) : ∃ before, before ≠ [] ∧ text = before ++ rest := by
  induction h with
  | last hpart => exact hp hpart
  | @cons text gap more rest b bs hpart hgap hmore ih =>
    obtain ⟨before, hne, rfl⟩ := hp hpart
    obtain ⟨before', _, rfl⟩ := ih
    exact ⟨before ++ (gap ++ before'), by simp [hne], by simp⟩

end RunAt

namespace Recognizes

variable {α β : Type} {read : List Char → Except Stop (Reading α)} {make : β → α}
  {Part : List Char → β → List Char → Prop} {Follow : List Char → Prop} (hread : Recognizes read make Part Follow)
include hread

theorem run_sound {text next next' : List Char} {a : α} {as : List α} (ht : IsTrimmed text)
    (hfirst : read text = .ok (a, next)) (hmore : repeatedly read next = (as, next')) :
    StartsWord text ∧ IsTrimmed next' ∧
      (Resumes next' → ∃ bs rest, a :: as = bs.map make ∧ RunAt Part text bs rest ∧ next' = Text.skipBlanks rest) := by
  induction as generalizing text a next with
  | nil =>
    obtain rfl := repeatedly_eq_nil hmore
    obtain ⟨hstart, hnext, hpart⟩ := hread.sound ht hfirst
    refine ⟨hstart, hnext, ?_⟩
    intro hresumes
    obtain ⟨b, rest, rfl, hat, hskip⟩ := hpart hresumes
    exact ⟨[b], rest, rfl, .last hat, hskip⟩
  | cons a' as ih =>
    obtain ⟨after, hsecond, hrest⟩ := repeatedly_eq_cons hmore
    obtain ⟨hstart, hnext, hpart⟩ := hread.sound ht hfirst
    obtain ⟨hstart', hlast, hrun⟩ := ih hnext hsecond hrest
    refine ⟨hstart, hlast, ?_⟩
    intro hresumes
    obtain ⟨b, rest, rfl, hat, rfl⟩ := hpart hstart'.resumes
    obtain ⟨bs, rest', hbs, hruns, hskip⟩ := hrun hresumes
    obtain ⟨gap, hgap, hsplit⟩ := exists_skipBlanks rest
    rw [hsplit] at hat
    have hne : gap ≠ [] := hstart'.gap_ne_nil (hread.ends hat)
    exact ⟨b :: bs, rest', by rw [List.map_cons, ← hbs], .cons hat ⟨hne, hgap⟩ hruns, hskip⟩

theorem run_complete {text rest : List Char} {bs : List β} {stop : Stop} (ht : IsTrimmed text)
    (hrun : RunAt Part text bs rest) (hfollow : Follow (Text.skipBlanks rest))
    (hstop : read (Text.skipBlanks rest) = .error stop) :
    ∃ a as next, a :: as = bs.map make ∧ read text = .ok (a, next) ∧ next.length < text.length ∧
      repeatedly read next = (as, Text.skipBlanks rest) := by
  induction hrun with
  | @last text rest b hpart =>
    refine ⟨make b, [], _, rfl, hread.complete ht hpart hfollow, ?_, repeatedly_of_error hstop⟩
    obtain ⟨before, hne, rfl⟩ := hread.consumes hpart
    have hle := Text.length_skipBlanks_le rest
    have hpos := List.length_pos_iff.2 hne
    rw [List.length_append]
    omega
  | @cons text gap more rest b bs hpart hgap hmore ih =>
    obtain ⟨_, _, hhead⟩ := hmore.head
    obtain ⟨before, hne, rfl⟩ := hread.consumes hpart
    have hstart := hread.starts hhead
    have hskip : Text.skipBlanks (gap ++ more) = more := skipBlanks_append hgap.2 hstart.stopsAt_isBlank
    have hfinish : NoTrailingBlank (gap ++ more) := ht.finish.of_append
    have htrimmed : IsTrimmed more :=
      ⟨stopsAt_isInlineBlank_of_isBlank hstart.stopsAt_isBlank, hfinish.of_append⟩
    obtain ⟨a, as, next, hbs, hfirst, hshorter, hrest⟩ := ih htrimmed hfollow hstop
    have hpartRead : read (before ++ (gap ++ more)) = .ok (make b, more) := by
      have hcomplete := hread.complete ht hpart (by rw [hskip]; exact hread.follows hhead)
      rwa [hskip] at hcomplete
    refine ⟨make b, a :: as, more, by rw [List.map_cons, ← hbs], hpartRead, ?_, ?_⟩
    · have hpos := List.length_pos_iff.2 hne
      simp only [List.length_append]
      omega
    · rw [repeatedly_of_ok hfirst hshorter, hrest]

theorem atLeastOnce_sound {text next : List Char} {as : List α} (ht : IsTrimmed text)
    (h : atLeastOnce read text = .ok (as, next)) :
    StartsWord text ∧ IsTrimmed next ∧
      (Resumes next → ∃ bs rest, as = bs.map make ∧ RunAt Part text bs rest ∧ next = Text.skipBlanks rest) := by
  obtain ⟨⟨a, after⟩, hfirst, hmore⟩ := bind_eq_ok_iff.1 h
  obtain ⟨rfl, hrest⟩ := Prod.mk.inj (Except.ok.inj hmore)
  exact hread.run_sound ht hfirst (Prod.ext rfl hrest)

theorem atLeastOnce_complete {text rest : List Char} {bs : List β} {stop : Stop} (ht : IsTrimmed text)
    (hrun : RunAt Part text bs rest) (hfollow : Follow (Text.skipBlanks rest))
    (hstop : read (Text.skipBlanks rest) = .error stop) :
    atLeastOnce read text = .ok (bs.map make, Text.skipBlanks rest) := by
  obtain ⟨a, as, next, hbs, hfirst, _, hrest⟩ := hread.run_complete ht hrun hfollow hstop
  refine bind_eq_ok_iff.2 ⟨(a, next), hfirst, ?_⟩
  simp only [hrest, hbs]
  rfl

end Recognizes

end ExprCalculus.Document
