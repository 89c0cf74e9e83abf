import ExprCalculus.Proofs.Document.Tokens
import ExprCalculus.Proofs.Expr.FirstFault

/-!
# Layouts

A layout lists the titles that may occur and the keys under each of them. It is checked on the document, where every
title and key stands once, and what it finds there is what the sections of the text have.
-/

namespace ExprCalculus

theorem Dictionary.mem_iff_lookup {α : Type} {name : String} {entries : List (String × α)}
    (h : (entries.map Prod.fst).Nodup) {a : α} : (name, a) ∈ entries ↔ entries.lookup name = some a := by
  induction entries with
  | nil => exact iff_of_false (List.not_mem_nil) nofun
  | cons entry entries ih =>
    rw [List.map_cons, List.nodup_cons] at h
    rw [List.mem_cons, lookup_cons, ih h.2]
    by_cases hname : name = entry.1
    · have hnone : entries.lookup name ≠ some a := by
        intro hlater
        refine h.1 (hname ▸ ?_)
        exact List.mem_map_of_mem ((ih h.2).2 hlater)
      rw [if_pos hname, or_iff_left hnone, Option.some_inj, Prod.ext_iff, and_iff_right hname]
      exact eq_comm
    · rw [if_neg hname, or_iff_right]
      intro hsame
      exact hname (congrArg Prod.fst hsame)

namespace Document

theorem requireKeys_eq_ok_iff {layout : Layout} {title : String} {content : DocumentSection} :
    requireKeys layout title content = .ok () ↔
      ∃ keys, layout.lookup title = some keys ∧ (keys = [] ∨ ∀ key ∈ content.names, key ∈ keys) := by
  unfold requireKeys
  cases layout.lookup title with
  | none => exact iff_of_false nofun (fun ⟨_, h, _⟩ => nomatch h)
  | some keys =>
    simp only [Option.some_inj, exists_eq_left', List.isEmpty_iff]
    by_cases hkeys : keys = []
    · rw [if_pos hkeys]
      exact iff_of_true rfl (.inl hkeys)
    · rw [if_neg hkeys, or_iff_right hkeys]
      cases hfind : content.names.find? fun key => !keys.contains key with
      | some key =>
        refine iff_of_false nofun fun hall => ?_
        have hkey := List.find?_some hfind
        rw [List.contains_iff_mem.2 (hall key (List.mem_of_find?_eq_some hfind))] at hkey
        cases hkey
      | none =>
        refine iff_of_true rfl fun key hkey => ?_
        simpa using List.find?_eq_none.1 hfind key hkey

section Layout

variable {layout : Layout} {sections : TokenSections} {d : TaskDocument} (hd : Gives sections d)
include hd

theorem Gives.mem_toList_iff {title : String} {content : DocumentSection} :
    (title, content) ∈ d.toList ↔ d.get? title = some content :=
  Dictionary.mem_iff_lookup hd.distinct

theorem Gives.mem_names_iff {title key : String} {content : DocumentSection} (hcontent : d.get? title = some content) :
    key ∈ content.names ↔ ∃ entries, (title, entries) ∈ sections ∧ ∃ entry ∈ entries, entry.1 = key := by
  rw [← Dictionary.contains_iff, Dictionary.contains, hd.values title content hcontent, isSome_lastValues_iff]

/-- A layout lets a document pass just when it lists all titles and all keys of its text. -/
theorem Gives.requireLayout_eq_ok_iff (hlayout : (layout.map Prod.fst).Nodup) :
    requireLayout layout d = .ok () ↔
      ∀ title entries, (title, entries) ∈ sections →
        ∃ keys, (title, keys) ∈ layout ∧ (keys = [] ∨ ∀ entry ∈ entries, entry.1 ∈ keys) := by
  have hforM : requireLayout layout d = forM d.toList fun entry => requireKeys layout entry.1 entry.2 := rfl
  rw [hforM, forM_eq_ok_iff]
  simp only [requireKeys_eq_ok_iff, Dictionary.mem_iff_lookup hlayout]
  constructor
  · intro h title entries hs
    obtain ⟨content, hcontent⟩ := Option.isSome_iff_exists.1 ((hd.titles title).2 ⟨entries, hs⟩)
    obtain ⟨keys, hkeys, hall⟩ := h (title, content) (hd.mem_toList_iff.2 hcontent)
    refine ⟨keys, hkeys, hall.imp_right ?_⟩
    intro hnames entry hentry
    exact hnames entry.1 ((hd.mem_names_iff hcontent).2 ⟨entries, hs, entry, hentry, rfl⟩)
  · intro h entry hentry
    have hcontent := hd.mem_toList_iff.1 hentry
    have hfound : d.contains entry.1 = true := Option.isSome_iff_exists.2 ⟨_, hcontent⟩
    obtain ⟨entries, hs⟩ := (hd.titles entry.1).1 hfound
    obtain ⟨keys, hkeys, _⟩ := h entry.1 entries hs
    refine ⟨keys, hkeys, ?_⟩
    by_cases hany : keys = []
    · exact .inl hany
    · refine .inr ?_
      intro key hkey
      -- Sections with one title are merged, so the key may come from another section than the one found first.
      obtain ⟨entries', hs', entry', hentry', rfl⟩ := (hd.mem_names_iff hcontent).1 hkey
      obtain ⟨keys', hkeys', hall⟩ := h entry.1 entries' hs'
      obtain rfl := Option.some.inj (hkeys.symm.trans hkeys')
      exact hall.resolve_left hany entry' hentry'

end Layout

end Document
end ExprCalculus
