import ExprCalculus.Proofs.Document.Sections

/-!
# What documents hold

A dictionary made of entries holds the last one of each name. So a document holds its titles and, under each of them,
the last values of each key among all sections with that title. Together with the grammar this says which texts are
read, and what comes of them. A layout changes nothing of that, it only turns documents away.
-/

namespace ExprCalculus

namespace Dictionary

variable {α : Type}

/-! ### The last entry of a name -/

theorem get?_foldl_insert (entries : List (String × α)) (d : Dictionary α) (name : String) :
    (entries.foldl (fun d entry => d.insert entry.1 entry.2) d).get? name =
      (entries.reverse.lookup name).or (d.get? name) := by
  induction entries generalizing d with
  | nil => rfl
  | cons entry entries ih =>
    rw [List.foldl_cons, ih, get?_insert, List.reverse_cons, List.lookup_append, Option.or_assoc, lookup_cons]
    by_cases hname : name = entry.1
    · rw [if_pos hname, if_pos hname, Option.some_or]
    · rw [if_neg hname, if_neg hname]
      rfl

theorem get?_ofList (entries : List (String × α)) (name : String) :
    (ofList entries).get? name = entries.reverse.lookup name :=
  (get?_foldl_insert entries empty name).trans Option.or_none

/-! ### Distinct names -/

theorem mem_names_insert {d : Dictionary α} {name n : String} {value : α} :
    n ∈ (d.insert name value).names ↔ n = name ∨ n ∈ d.names := by
  obtain ⟨entries⟩ := d
  simp only [insert, names]
  induction entries with
  | nil => simp [insertEntry]
  | cons entry entries ih =>
    simp only [insertEntry]
    split
    · rename_i hname
      rw [beq_iff_eq.1 hname]
      simp
    · simp only [List.map_cons, List.mem_cons, ih]
      exact or_left_comm

theorem nodup_names_insert {d : Dictionary α} (h : d.names.Nodup) (name : String) (value : α) :
    (d.insert name value).names.Nodup := by
  obtain ⟨entries⟩ := d
  simp only [insert, names] at h ⊢
  induction entries with
  | nil => simp [insertEntry]
  | cons entry entries ih =>
    rw [List.map_cons, List.nodup_cons] at h
    simp only [insertEntry]
    split
    · rename_i hname
      rw [List.map_cons, List.nodup_cons, beq_iff_eq.1 hname]
      exact h
    · rename_i hname
      rw [List.map_cons, List.nodup_cons]
      refine ⟨?_, ih h.2⟩
      intro hmem
      rcases (mem_names_insert (d := ⟨entries⟩)).1 hmem with hsame | hold
      · exact hname (beq_iff_eq.2 hsame.symm)
      · exact h.1 hold

theorem nodup_names_foldl_insert (entries : List (String × α)) {d : Dictionary α} (h : d.names.Nodup) :
    (entries.foldl (fun d entry => d.insert entry.1 entry.2) d).names.Nodup := by
  induction entries generalizing d with
  | nil => exact h
  | cons entry entries ih => exact ih (nodup_names_insert h entry.1 entry.2)

theorem nodup_names_ofList (entries : List (String × α)) : (ofList entries).names.Nodup :=
  nodup_names_foldl_insert entries List.nodup_nil

theorem lookup_reverse {entries : List (String × α)} (h : (entries.map Prod.fst).Nodup) (name : String) :
    entries.reverse.lookup name = entries.lookup name := by
  induction entries with
  | nil => rfl
  | cons entry entries ih =>
    rw [List.map_cons, List.nodup_cons] at h
    rw [List.reverse_cons, List.lookup_append, ih h.2, lookup_cons, lookup_cons]
    by_cases hname : name = entry.1
    · have hnone : entries.lookup name = none := by
        refine List.lookup_eq_none_iff.2 fun p hp => bne_iff_ne.2 fun hsame => h.1 ?_
        rw [← hname, hsame]
        exact List.mem_map_of_mem hp
      rw [if_pos hname, if_pos hname, hnone, Option.none_or]
    · rw [if_neg hname, if_neg hname]
      exact Option.or_none

theorem get?_union (d : Dictionary α) {e : Dictionary α} (h : e.names.Nodup) (name : String) :
    (d.union e).get? name = (e.get? name).or (d.get? name) := by
  rw [union, get?_foldl_insert, lookup_reverse h]
  rfl

/-! ### Names with a value -/

theorem contains_iff {d : Dictionary α} {name : String} : d.contains name = true ↔ name ∈ d.names := by
  rw [contains, get?, List.lookup_isSome_iff, names, List.mem_map]
  simp only [beq_iff_eq, @eq_comm _ name]

theorem contains_ofList {entries : List (String × α)} {name : String} :
    (ofList entries).contains name = true ↔ name ∈ entries.map Prod.fst := by
  rw [contains, get?_ofList, List.lookup_isSome_iff, List.mem_map]
  simp only [List.mem_reverse, beq_iff_eq, @eq_comm _ name]

end Dictionary

namespace Document

open Reader (Blanks StopsAt)

/-! ### The contents of a document -/

/-- The pairs of all sections with this title, in order. -/
def pairsUnder (sections : List (String × List (String × List Value))) (title : String) :
    List (String × List Value) :=
  (sections.filter fun s => s.1 == title).flatMap Prod.snd

/-- The document has the titles of the sections. Under a title each key has the values that came last. -/
structure Holds (d : TaskDocument) (sections : List (String × List (String × List Value))) : Prop where
  titles : ∀ title, d.contains title = true ↔ ∃ pairs, (title, pairs) ∈ sections
  values : ∀ title content, d.get? title = some content →
    ∀ key, content.get? key = (pairsUnder sections title).reverse.lookup key

theorem get?_addSection (d : TaskDocument) (s : String × List (String × List Value)) (title : String) :
    (addSection d s.1 (Dictionary.ofList s.2)).get? title =
      if title = s.1 then some (((d.get? s.1).getD ∅).union (Dictionary.ofList s.2)) else d.get? title :=
  Dictionary.get?_insert d s.1 _ title

section Merging

variable (sections : List (String × List (String × List Value))) (d : TaskDocument) (title : String)

theorem contains_foldl_addSection :
    (sections.foldl (fun d s => addSection d s.1 (Dictionary.ofList s.2)) d).contains title = true ↔
      d.contains title = true ∨ ∃ pairs, (title, pairs) ∈ sections := by
  induction sections generalizing d with
  | nil => simp
  | cons s sections ih =>
    rw [List.foldl_cons, ih, Dictionary.contains, get?_addSection]
    by_cases htitle : title = s.1
    · subst htitle
      rw [if_pos rfl]
      exact iff_of_true (.inl rfl) (.inr ⟨s.2, List.mem_cons_self⟩)
    · rw [if_neg htitle]
      refine or_congr Iff.rfl (exists_congr fun pairs => ?_)
      rw [List.mem_cons]
      refine (or_iff_right ?_).symm
      rintro rfl
      exact htitle rfl

theorem get?_foldl_addSection (key : String) :
    (((sections.foldl (fun d s => addSection d s.1 (Dictionary.ofList s.2)) d).get? title).getD ∅).get? key =
      ((pairsUnder sections title).reverse.lookup key).or (((d.get? title).getD ∅).get? key) := by
  induction sections generalizing d with
  | nil => rfl
  | cons s sections ih =>
    rw [List.foldl_cons, ih, get?_addSection]
    by_cases htitle : title = s.1
    · subst htitle
      have hpairs : pairsUnder (s :: sections) s.1 = s.2 ++ pairsUnder sections s.1 := by
        simp [pairsUnder]
      rw [if_pos rfl, Option.getD_some, Dictionary.get?_union _ (Dictionary.nodup_names_ofList _),
        Dictionary.get?_ofList, hpairs, List.reverse_append, List.lookup_append, Option.or_assoc]
    · have hpairs : pairsUnder (s :: sections) title = pairsUnder sections title := by
        simp [pairsUnder, Ne.symm htitle]
      rw [if_neg htitle, hpairs]

end Merging

theorem holds_merged (sections : List (String × List (String × List Value))) :
    Holds ((sections.map keepSection).foldl (fun d entry => addSection d entry.1 entry.2) ∅) sections := by
  rw [List.foldl_map]
  constructor
  · intro title
    refine (contains_foldl_addSection sections ∅ title).trans (or_iff_right ?_)
    exact Bool.false_ne_true
  · intro title content hcontent key
    have hmerged := get?_foldl_addSection sections ∅ title key
    have hnone : (((∅ : TaskDocument).get? title).getD ∅).get? key = none := rfl
    rw [hnone, Option.or_none] at hmerged
    rw [← hmerged]
    exact congrArg (fun found => (found.getD ∅).get? key) hcontent.symm

/-- The keys of a document that is read are words. -/
theorem isWord_of_ofText {text : String} {d : TaskDocument} (h : ofText none text = .ok d) {title key : String}
    {content : DocumentSection} (hcontent : d.get? title = some content) (hkey : content.contains key = true) :
    IsWord key.toList := by
  by_cases hblanks : Blanks (withoutComments text.toList)
  · obtain rfl := Except.ok.inj ((ofText_of_blanks hblanks).symm.trans h)
    cases hcontent
  · obtain ⟨sections, hat, rfl⟩ := (ofText_eq_ok_iff_documentAt hblanks).1 h
    rw [Dictionary.contains, (holds_merged sections).values title content hcontent, List.lookup_isSome_iff] at hkey
    obtain ⟨pair, hpair, hname⟩ := hkey
    obtain rfl := beq_iff_eq.1 hname
    obtain ⟨⟨title', pairs⟩, hs, hmem⟩ := List.mem_flatMap.1 (List.mem_reverse.1 hpair)
    obtain ⟨_, _, hsection⟩ := hat.part_of_mem (List.mem_filter.1 hs).1
    cases hsection with
    | intro _ _ hpairs =>
      obtain ⟨_, _, hpairAt⟩ := hpairs.part_of_mem hmem
      exact hpairAt.isWord

/-- A layout only rejects: what is read with it is read just so without it. -/
theorem ofText_some_eq_ok_iff {layout : Layout} {text : String} {d : TaskDocument} :
    ofText (some layout) text = .ok d ↔ ofText none text = .ok d ∧ requireLayout layout d = .ok () := by
  have hrun : ofText (some layout) text =
      ofText none text >>= fun d => requireLayout layout d >>= fun _ => .ok d := by
    cases hall : (withoutComments text.toList).all Text.isBlank with
    | true =>
      simp only [ofText, hall, if_true]
      rfl
    | false =>
      simp only [ofText, hall, Bool.false_eq_true, if_false]
      cases readSections (withoutComments text.toList) with
      | error stop => rfl
      | ok result =>
        obtain ⟨d', rest⟩ := result
        change (if !rest.all Text.isBlank then _ else _) = (if !rest.all Text.isBlank then _ else _) >>= _
        cases rest.all Text.isBlank <;> rfl
  rw [hrun, bind_eq_ok_iff]
  simp only [bind_unit_eq_ok_iff]
  constructor
  · intro h
    obtain ⟨d', hd, hlayout, heq⟩ := h
    obtain rfl := Except.ok.inj heq
    exact ⟨hd, hlayout⟩
  · intro h
    obtain ⟨hd, hlayout⟩ := h
    exact ⟨d, hd, hlayout, rfl⟩

/-- A text with nothing but blanks and comments is the empty document. Any other text is read just when it is a run of
sections, its comments and the blanks at its ends apart, and then the document holds these sections. -/
theorem ofText_reads_documents (text : String) :
    (Blanks (withoutComments text.toList) → ofText none text = .ok ∅) ∧
      (¬Blanks (withoutComments text.toList) →
        ((∃ d, ofText none text = .ok d) ↔
            ∃ sections, DocumentAt (trimEnds (withoutComments text.toList)) sections) ∧
          ∀ d sections, ofText none text = .ok d →
            DocumentAt (trimEnds (withoutComments text.toList)) sections → Holds d sections) := by
  refine ⟨ofText_of_blanks, ?_⟩
  intro hne
  constructor
  · constructor
    · rintro ⟨d, hd⟩
      obtain ⟨sections, hat, _⟩ := (ofText_eq_ok_iff_documentAt hne).1 hd
      exact ⟨sections, hat⟩
    · rintro ⟨sections, hat⟩
      exact ⟨_, (ofText_eq_ok_iff_documentAt hne).2 ⟨sections, hat, rfl⟩⟩
  · intro d sections hd hat
    have hmerged := (ofText_eq_ok_iff_documentAt hne).2 ⟨sections, hat, rfl⟩
    obtain rfl := Except.ok.inj (hd.symm.trans hmerged)
    exact holds_merged sections

/-- A comment, and two sections with one title. -/
def retries : String := "# limits\n run n: 3\n\nrun n: 5\n"

theorem documentAt_retries :
    DocumentAt (trimEnds (withoutComments retries.toList))
      [("run", [("n", [.integer 3])]), ("run", [("n", [.integer 5])])] := by
  have htitle : IsWord ['r', 'u', 'n'] := ⟨'r', ['u', 'n'], rfl, rfl, List.all_eq_true.1 rfl⟩
  have hkey : IsWord ['n'] := ⟨'n', [], rfl, rfl, List.all_eq_true.1 rfl⟩
  have hnone : InlineBlanks [] := List.all_eq_true.1 rfl
  have hspace : InlineBlanks [' '] := List.all_eq_true.1 rfl
  have hgap : Gap [' '] := ⟨List.cons_ne_nil _ _, List.all_eq_true.1 rfl⟩
  have hline : Gap ['\n'] := ⟨List.cons_ne_nil _ _, List.all_eq_true.1 rfl⟩
  have hvalue : ∀ c, endsValue c = false → IsValue [c] := by
    intro c hc
    refine ⟨List.cons_ne_nil _ _, ?_⟩
    intro d hd
    rw [List.mem_singleton.1 hd]
    exact hc
  have hthree : ValuesAt (['3'] ++ "\nrun n: 5".toList) [.integer 3] "\nrun n: 5".toList :=
    .last (hvalue '3' rfl) (.integer (by decide)) (stopsAt_cons rfl)
  have hfive : ValuesAt (['5'] ++ []) [.integer 5] [] :=
    .last (hvalue '5' rfl) (.integer (by decide)) (fun _ hc => nomatch hc)
  have hfirst : PairAt (['n'] ++ ([] ++ ':' :: ([' '] ++ (['3'] ++ "\nrun n: 5".toList)))) ("n", [.integer 3])
      (['\n'] ++ "run n: 5".toList) := .valued hkey hnone hspace hthree
  have hsecond : PairAt (['n'] ++ ([] ++ ':' :: ([' '] ++ (['5'] ++ [])))) ("n", [.integer 5]) [] :=
    .valued hkey hnone hspace hfive
  have hlast : SectionAt (['r', 'u', 'n'] ++ ([' '] ++ "n: 5".toList)) ("run", [("n", [.integer 5])]) [] :=
    .intro htitle hgap (.last hsecond)
  have hhead : SectionAt (['r', 'u', 'n'] ++ ([' '] ++ "n: 3\nrun n: 5".toList)) ("run", [("n", [.integer 3])])
      (['\n'] ++ "run n: 5".toList) := .intro htitle hgap (.last hfirst)
  exact .cons hhead hline (.last hlast)

theorem ofText_reads_documents_retries :
    ¬Blanks (withoutComments retries.toList) ∧
      ∃ d, ofText none retries = .ok d ∧ d.contains "run" = true ∧
        ∀ content, d.get? "run" = some content → content.get? "n" = some [.integer 5] := by
  have hne : ¬Blanks (withoutComments retries.toList) := by
    intro hblanks
    cases hblanks 'r' (by decide)
  obtain ⟨hiff, hmeaning⟩ := (ofText_reads_documents retries).2 hne
  obtain ⟨d, hd⟩ := hiff.2 ⟨_, documentAt_retries⟩
  have hholds := hmeaning d _ hd documentAt_retries
  refine ⟨hne, d, hd, (hholds.titles "run").2 ⟨_, List.mem_cons_self⟩, ?_⟩
  intro content hcontent
  exact hholds.values "run" content hcontent "n"

end Document
end ExprCalculus
