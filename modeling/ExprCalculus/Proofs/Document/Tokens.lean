import ExprCalculus.Proofs.Document.Contents

/-!
# Documents as tokens

A value is typed by the way it looks, and how it was written is then gone. Here the sections of a text are taken with
their tokens: by the same grammar, and `typeSection` leads from them to the typed sections. `Writes` says which sections
a text is, `lastTokens` which tokens of a key count, and `Gives` what a document has from them.
-/

namespace ExprCalculus.Document

open Reader (Blanks)

/-- Sections in the order of a text, each with its keys in their order and the tokens of each key. -/
abbrev TokenSections := List (String × List (String × List (List Char)))

/-! ### The grammar with tokens -/

/-- Tokens with commas between them, and the text after the last one. -/
inductive TokensAt : List Char → List (List Char) → List Char → Prop
  | last {token rest : List Char} (htoken : IsValue token) (hrest : EndsValue rest) :
      TokensAt (token ++ rest) [token] rest
  | cons {token s t text rest : List Char} {tokens : List (List Char)} (htoken : IsValue token) (hs : InlineBlanks s)
      (ht : InlineBlanks t) (hmore : TokensAt text tokens rest) :
      TokensAt (token ++ (s ++ ',' :: (t ++ text))) (token :: tokens) rest

/-- A key with its tokens, and the text after them. Without tokens the line ends. -/
inductive EntryAt : List Char → String × List (List Char) → List Char → Prop
  | bare {key s t rest : List Char} (hkey : IsWord key) (hs : InlineBlanks s) (ht : InlineBlanks t)
      (hrest : EndsLine rest) : EntryAt (key ++ (s ++ ':' :: (t ++ rest))) (String.ofList key, []) rest
  | valued {key s t text rest : List Char} {tokens : List (List Char)} (hkey : IsWord key) (hs : InlineBlanks s)
      (ht : InlineBlanks t) (htokens : TokensAt text tokens rest) :
      EntryAt (key ++ (s ++ ':' :: (t ++ text))) (String.ofList key, tokens) rest

/-- A title with its entries, and the text after them. -/
inductive BlockAt : List Char → String × List (String × List (List Char)) → List Char → Prop
  | intro {title gap text rest : List Char} {entries : List (String × List (List Char))} (htitle : IsWord title)
      (hgap : Gap gap) (hentries : RunAt EntryAt text entries rest) :
      BlockAt (title ++ (gap ++ text)) (String.ofList title, entries) rest

section OneEntry

variable {title key token rest : List Char}

theorem isWord_of_check (h : (match key with
    | [] => false
    | c :: rest => isWordStart c && rest.all isWordChar) = true) : IsWord key := by
  cases key with
  | nil => cases h
  | cons c rest =>
    obtain ⟨hc, hrest⟩ := Bool.and_eq_true_iff.1 h
    exact ⟨c, rest, rfl, hc, List.all_eq_true.1 hrest⟩

theorem isValue_of_check (h : (!token.isEmpty && token.all fun c => !endsValue c) = true) : IsValue token := by
  simpa [IsValue] using h

/-- A section with one key and one token, on lines of their own. -/
theorem BlockAt.single (htitle : IsWord title) (hkey : IsWord key) (htoken : IsValue token) (hrest : EndsValue rest) :
    BlockAt (title ++ '\n' :: ' ' :: (key ++ ':' :: ' ' :: (token ++ rest)))
      (String.ofList title, [(String.ofList key, [token])]) rest := by
  have hgap : Gap ['\n', ' '] := ⟨List.cons_ne_nil _ _, List.all_eq_true.1 rfl⟩
  have hnone : InlineBlanks [] := fun _ hc => nomatch hc
  have hspace : InlineBlanks [' '] := List.all_eq_true.1 rfl
  exact .intro htitle hgap (.last (.valued hkey hnone hspace (.last htoken hrest)))

end OneEntry

/-! ### Typing the tokens -/

def typeEntry (entry : String × List (List Char)) : String × List Value := (entry.1, entry.2.map Value.ofToken)

def typeSection (s : String × List (String × List (List Char))) : String × List (String × List Value) :=
  (s.1, s.2.map typeEntry)

variable {text rest : List Char}

theorem valuesAt_iff_tokensAt {values : List Value} :
    ValuesAt text values rest ↔ ∃ tokens, TokensAt text tokens rest ∧ values = tokens.map Value.ofToken := by
  constructor
  · intro h
    induction h with
    | @last token rest v htoken hv hrest =>
      obtain rfl := typed_iff.1 hv
      exact ⟨[token], .last htoken hrest, rfl⟩
    | @cons token s t text rest v values htoken hv hs ht _ ih =>
      obtain ⟨tokens, hmore, rfl⟩ := ih
      obtain rfl := typed_iff.1 hv
      exact ⟨token :: tokens, .cons htoken hs ht hmore, rfl⟩
  · intro h
    obtain ⟨tokens, htokens, rfl⟩ := h
    induction htokens with
    | last htoken hrest => exact .last htoken (typed_iff.2 rfl) hrest
    | cons htoken hs ht _ ih => exact .cons htoken (typed_iff.2 rfl) hs ht ih

theorem pairAt_iff_entryAt {pair : String × List Value} :
    PairAt text pair rest ↔ ∃ entry, EntryAt text entry rest ∧ pair = typeEntry entry := by
  constructor
  · intro h
    cases h with
    | bare hkey hs ht hrest => exact ⟨_, .bare hkey hs ht hrest, rfl⟩
    | valued hkey hs ht hvalues =>
      obtain ⟨tokens, htokens, rfl⟩ := valuesAt_iff_tokensAt.1 hvalues
      exact ⟨_, .valued hkey hs ht htokens, rfl⟩
  · intro h
    obtain ⟨entry, hentry, rfl⟩ := h
    cases hentry with
    | bare hkey hs ht hrest => exact .bare hkey hs ht hrest
    | valued hkey hs ht htokens => exact .valued hkey hs ht (valuesAt_iff_tokensAt.2 ⟨_, htokens, rfl⟩)

/-- If the parts of one grammar are those of another one, each under a map, then so are the runs. -/
theorem RunAt.iff_map {α β : Type} {Part : List Char → β → List Char → Prop} {Source : List Char → α → List Char → Prop}
    {f : α → β} (hpart : ∀ text b rest, Part text b rest ↔ ∃ a, Source text a rest ∧ b = f a) {bs : List β} :
    RunAt Part text bs rest ↔ ∃ as, RunAt Source text as rest ∧ bs = as.map f := by
  constructor
  · intro h
    induction h with
    | last h =>
      obtain ⟨a, ha, rfl⟩ := (hpart _ _ _).1 h
      exact ⟨[a], .last ha, rfl⟩
    | cons h hgap _ ih =>
      obtain ⟨a, ha, rfl⟩ := (hpart _ _ _).1 h
      obtain ⟨as, has, rfl⟩ := ih
      exact ⟨a :: as, .cons ha hgap has, rfl⟩
  · intro h
    obtain ⟨as, has, rfl⟩ := h
    induction has with
    | last ha => exact .last ((hpart _ _ _).2 ⟨_, ha, rfl⟩)
    | cons ha hgap _ ih => exact .cons ((hpart _ _ _).2 ⟨_, ha, rfl⟩) hgap ih

theorem pairsAt_iff_entriesAt {pairs : List (String × List Value)} :
    RunAt PairAt text pairs rest ↔ ∃ entries, RunAt EntryAt text entries rest ∧ pairs = entries.map typeEntry := by
  refine RunAt.iff_map ?_
  intro text pair rest
  exact pairAt_iff_entryAt

theorem sectionAt_iff_blockAt {s : String × List (String × List Value)} :
    SectionAt text s rest ↔ ∃ block, BlockAt text block rest ∧ s = typeSection block := by
  constructor
  · intro h
    cases h with
    | intro htitle hgap hpairs =>
      obtain ⟨entries, hentries, rfl⟩ := pairsAt_iff_entriesAt.1 hpairs
      exact ⟨_, .intro htitle hgap hentries, rfl⟩
  · intro h
    obtain ⟨block, hblock, rfl⟩ := h
    cases hblock with
    | intro htitle hgap hentries =>
      exact .intro htitle hgap (pairsAt_iff_entriesAt.2 ⟨_, hentries, rfl⟩)

theorem documentAt_iff_blocks {sections : List (String × List (String × List Value))} :
    DocumentAt text sections ↔ ∃ blocks, RunAt BlockAt text blocks [] ∧ sections = blocks.map typeSection := by
  refine RunAt.iff_map ?_
  intro text s rest
  exact sectionAt_iff_blockAt

/-! ### What counts -/

/-- The text is these sections, comments and the blanks at its ends apart. A text with nothing else has none. -/
inductive Writes (text : String) : TokenSections → Prop
  | nothing (h : Blanks (withoutComments text.toList)) : Writes text []
  | sections {sections : TokenSections} (hne : ¬Blanks (withoutComments text.toList))
      (hat : RunAt BlockAt (trimEnds (withoutComments text.toList)) sections []) : Writes text sections

section LastOccurrence

variable (sections : TokenSections) (title key : String)

/-- The tokens of the last pair with this key, among all sections with this title. -/
def lastTokens : Option (List (List Char)) :=
  ((sections.filter fun s => s.1 == title).flatMap Prod.snd).reverse.lookup key

/-- The last tokens of a key, each with its type. -/
def lastValues : Option (List Value) := (lastTokens sections title key).map (List.map Value.ofToken)

theorem lookup_map_snd {α β : Type} (f : α → β) (entries : List (String × α)) :
    (entries.map fun entry => (entry.1, f entry.2)).lookup key = (entries.lookup key).map f := by
  induction entries with
  | nil => rfl
  | cons entry entries ih =>
    rw [List.map_cons, Dictionary.lookup_cons, Dictionary.lookup_cons, ih]
    by_cases hkey : key = entry.1
    · rw [if_pos hkey, if_pos hkey, Option.map_some]
    · rw [if_neg hkey, if_neg hkey]

theorem lookup_pairsUnder_typeSection :
    (pairsUnder (sections.map typeSection) title).reverse.lookup key = lastValues sections title key := by
  have hpairs : pairsUnder (sections.map typeSection) title =
      ((sections.filter fun s => s.1 == title).flatMap Prod.snd).map typeEntry := by
    rw [pairsUnder, List.filter_map, List.flatMap_map, List.map_flatMap]
    rfl
  rw [hpairs, ← List.map_reverse]
  exact lookup_map_snd key (List.map Value.ofToken) _

variable {sections title key}

theorem lastValues_of_lastTokens {tokens : List (List Char)} (h : lastTokens sections title key = some tokens) :
    lastValues sections title key = some (tokens.map Value.ofToken) := by
  rw [lastValues, h, Option.map_some]

theorem isSome_lastValues_iff :
    (lastValues sections title key).isSome = true ↔
      ∃ entries, (title, entries) ∈ sections ∧ ∃ entry ∈ entries, entry.1 = key := by
  rw [lastValues, Option.isSome_map, lastTokens, List.lookup_isSome_iff]
  simp only [List.mem_reverse, List.mem_flatMap, List.mem_filter, beq_iff_eq, @eq_comm _ key]
  constructor
  · intro h
    obtain ⟨entry, ⟨⟨title', entries⟩, ⟨hs, rfl⟩, hentry⟩, hkey⟩ := h
    exact ⟨entries, hs, entry, hentry, hkey⟩
  · intro h
    obtain ⟨entries, hs, entry, hentry, hkey⟩ := h
    exact ⟨entry, ⟨(title, entries), ⟨hs, rfl⟩, hentry⟩, hkey⟩

/-- A typed integer is one that its token spells, so it fits into 64 bits with a sign. -/
theorem isWord_of_lastValues {values : List Value} (h : lastValues sections title key = some values) {n : Int}
    (hn : .integer n ∈ values) : Value.isWord n = true := by
  obtain ⟨tokens, _, rfl⟩ := Option.map_eq_some_iff.1 h
  obtain ⟨token, _, htyped⟩ := List.mem_map.1 hn
  cases typed_iff.2 htyped with
  | integer hread => exact (Option.filter_eq_some_iff.1 hread).2

end LastOccurrence

/-- The keys of a text are words. -/
theorem Writes.isWord_of_mem {text : String} {sections : TokenSections} (h : Writes text sections) {title : String}
    {entries : List (String × List (List Char))} (hs : (title, entries) ∈ sections)
    {entry : String × List (List Char)} (hentry : entry ∈ entries) : IsWord entry.1.toList := by
  cases h with
  | nothing => cases hs
  | sections _ hat =>
    obtain ⟨_, _, hblock⟩ := hat.part_of_mem hs
    cases hblock with
    | intro _ _ hentries =>
      obtain ⟨_, _, hat⟩ := hentries.part_of_mem hentry
      exact (pairAt_iff_entryAt.2 ⟨entry, hat, rfl⟩).isWord

/-! ### What a document has from its text -/

/-- The document has the titles of the sections and under each of them the keys with their last values, and each of them
once. -/
structure Gives (sections : TokenSections) (d : TaskDocument) : Prop where
  titles : ∀ title, d.contains title = true ↔ ∃ entries, (title, entries) ∈ sections
  values : ∀ title content, d.get? title = some content → ∀ key, content.get? key = lastValues sections title key
  distinct : d.names.Nodup
  distinctKeys : ∀ title content, d.get? title = some content → content.names.Nodup

theorem gives_nothing : Gives [] ∅ where
  titles title := by simp [Dictionary.contains, EmptyCollection.emptyCollection]
  values _ _ h := nomatch h
  distinct := List.nodup_nil
  distinctKeys _ _ h := nomatch h

theorem distinct_foldl_addSection (sections : List (String × List (String × List Value))) {d : TaskDocument}
    (hd : d.names.Nodup) (hkeys : ∀ title content, d.get? title = some content → content.names.Nodup) :
    let merged := sections.foldl (fun d s => addSection d s.1 (Dictionary.ofList s.2)) d
    merged.names.Nodup ∧ ∀ title content, merged.get? title = some content → content.names.Nodup := by
  induction sections generalizing d with
  | nil => exact ⟨hd, hkeys⟩
  | cons s sections ih =>
    refine ih (Dictionary.nodup_names_insert hd _ _) ?_
    intro title content hcontent
    rw [get?_addSection] at hcontent
    split at hcontent
    · obtain rfl := Option.some.inj hcontent
      refine Dictionary.nodup_names_foldl_insert _ ?_
      cases hold : d.get? s.1 with
      | none => exact List.nodup_nil
      | some old => exact hkeys s.1 old hold
    · exact hkeys title content hcontent

theorem gives_merged (sections : TokenSections) :
    Gives sections
      (((sections.map typeSection).map keepSection).foldl (fun d entry => addSection d entry.1 entry.2) ∅) := by
  obtain ⟨htitles, hvalues⟩ := holds_merged (sections.map typeSection)
  obtain ⟨hdistinct, hkeys⟩ := distinct_foldl_addSection (sections.map typeSection) gives_nothing.distinct
    gives_nothing.distinctKeys
  refine ⟨?_, ?_, ?_, ?_⟩
  · intro title
    refine (htitles title).trans ⟨?_, ?_⟩
    · intro h
      obtain ⟨pairs, hmem⟩ := h
      obtain ⟨⟨title', entries⟩, hs, heq⟩ := List.mem_map.1 hmem
      obtain ⟨rfl, _⟩ := Prod.mk.inj heq
      exact ⟨entries, hs⟩
    · intro h
      obtain ⟨entries, hs⟩ := h
      exact ⟨_, List.mem_map_of_mem hs⟩
  · intro title content hcontent key
    rw [hvalues title content hcontent key, lookup_pairsUnder_typeSection]
  · rw [List.foldl_map]
    exact hdistinct
  · rw [List.foldl_map]
    exact hkeys

/-- Every text that is written in the format is read, and gives what it says. -/
theorem Writes.gives {text : String} {sections : TokenSections} (h : Writes text sections) :
    ∃ d, ofText none text = .ok d ∧ Gives sections d := by
  cases h with
  | nothing h => exact ⟨∅, ofText_of_blanks h, gives_nothing⟩
  | sections hne hat =>
    have hdocument := documentAt_iff_blocks.2 ⟨_, hat, rfl⟩
    exact ⟨_, (ofText_eq_ok_iff_documentAt hne).2 ⟨_, hdocument, rfl⟩, gives_merged _⟩

theorem exists_writes_of_ofText {text : String} {d : TaskDocument} (h : ofText none text = .ok d) :
    ∃ sections, Writes text sections := by
  by_cases hblanks : Blanks (withoutComments text.toList)
  · exact ⟨[], .nothing hblanks⟩
  · obtain ⟨sections, hat, _⟩ := (ofText_eq_ok_iff_documentAt hblanks).1 h
    obtain ⟨blocks, hblocks, _⟩ := documentAt_iff_blocks.1 hat
    exact ⟨blocks, .sections hblanks hblocks⟩

end ExprCalculus.Document
