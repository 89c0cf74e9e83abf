import ExprCalculus.Proofs.Document.Spelling
import ExprCalculus.Proofs.Session.Meaning

/-!
# Settings that are text

A log file and a variable are named by a token, but the token is typed before it becomes a name again. So a session
keeps a name only if the token is how its value is written out: the file `007` becomes `7`, and a variable `nan` is
looked for as `NaN`.
-/

namespace ExprCalculus.Settings

open Document (Value TokenSections Writes lastTokens lastValues lastValues_of_lastTokens Plain KeptName)

section Sessions

variable {text : String} {sections : TokenSections} (hwrites : Writes text sections) {token : List Char}
include hwrites

theorem logFile_of_lastTokens (hlast : lastTokens sections "logging" "file" = some [token]) {c : Settings}
    (h : ofText text = .ok c) : c.logFile = some (Value.ofToken token).text :=
  says_of_setTo (lastValues_of_lastTokens hlast) (means_of_ofText hwrites h).logFile

theorem differentiateBy_of_lastTokens (hlast : lastTokens sections "derivative" "with_respect_to" = some [token])
    {c : Settings} (h : ofText text = .ok c) : c.differentiateBy = (Value.ofToken token).text :=
  says_of_setTo (lastValues_of_lastTokens hlast) (means_of_ofText hwrites h).differentiateBy

/-- A token that names a variable is a word. -/
theorem isWord_of_lastTokens {tokens : List (List Char)}
    (h : lastTokens sections "variables" (String.ofList token) = some tokens) : Document.IsWord token := by
  have hlisted := lastValues_of_lastTokens h
  obtain ⟨entries, hs, entry, hentry, hkey⟩ :=
    Document.isSome_lastValues_iff.1 (Option.isSome_iff_exists.2 ⟨_, hlisted⟩)
  have hword := hwrites.isWord_of_mem hs hentry
  rw [hkey, String.toList_ofList] at hword
  exact hword

end Sessions

/-- The name of the log file is kept just when its token is how its value is written out. Where all else is in order,
a variable that is listed is differentiated by under its own name just when that is no other spelling of NaN or
infinity. -/
theorem kept_names {text : String} {sections : TokenSections} (hwrites : Writes text sections) (token : List Char) :
    (∀ c, ofText text = .ok c → lastTokens sections "logging" "file" = some [token] →
        (c.logFile = some (String.ofList token) ↔ Plain token)) ∧
      (WellSet sections → lastTokens sections "derivative" "with_respect_to" = some [token] →
        (∃ tokens, lastTokens sections "variables" (String.ofList token) = some tokens) →
          ((∃ c, ofText text = .ok c ∧ c.differentiateBy = String.ofList token) ↔ KeptName (String.ofList token))) := by
  constructor
  · intro c hc hlast
    rw [logFile_of_lastTokens hwrites hlast hc, Option.some_inj]
    exact Document.text_ofToken_eq_iff
  · intro hset hlast hlisted
    obtain ⟨tokens, htokens⟩ := hlisted
    rw [← Document.text_ofToken_eq_iff_keptName (isWord_of_lastTokens hwrites htokens)]
    constructor
    · intro h
      obtain ⟨c, hc, hname⟩ := h
      rw [← differentiateBy_of_lastTokens hwrites hlast hc, hname]
    · intro hkept
      have hlisted := lastValues_of_lastTokens htokens
      obtain ⟨v, hv, x, hx⟩ := hset.variables _ _ hlisted
      have hassigns : Assigns sections (Value.ofToken token).text x := by
        rw [hkept]
        exact .listed (hlisted.trans (congrArg some hv)) hx
      have hname : SetTo SaysText "x" (lastValues sections "derivative" "with_respect_to")
          (Value.ofToken token).text := by
        rw [lastValues_of_lastTokens hlast]
        exact .given rfl
      obtain ⟨c, hc⟩ := (exists_ofText_iff hwrites).2 ⟨hset, _, hname, x, hassigns⟩
      exact ⟨c, hc, (differentiateBy_of_lastTokens hwrites hlast hc).trans hkept⟩

/-- A session whose only variable is called `nan`. -/
def boundNan : String := "variables\n nan: 2\nderivative\n with_respect_to: nan\n"

def boundNanSections : TokenSections :=
  [("variables", [("nan", [['2']])]), ("derivative", [("with_respect_to", [['n', 'a', 'n']])])]

theorem writes_boundNan : Writes boundNan boundNanSections := by
  have hline : Document.Gap ['\n'] := ⟨List.cons_ne_nil _ _, List.all_eq_true.1 rfl⟩
  have hvariables : Document.BlockAt
      ("variables".toList ++ '\n' :: ' ' :: (['n', 'a', 'n'] ++ ':' :: ' ' :: (['2'] ++
        (['\n'] ++ "derivative\n with_respect_to: nan".toList))))
      ("variables", [("nan", [['2']])]) (['\n'] ++ "derivative\n with_respect_to: nan".toList) :=
    .single (Document.isWord_of_check rfl) (Document.isWord_of_check rfl) (Document.isValue_of_check rfl)
      (Document.stopsAt_cons rfl)
  have hderivative : Document.BlockAt
      ("derivative".toList ++ '\n' :: ' ' :: ("with_respect_to".toList ++ ':' :: ' ' :: (['n', 'a', 'n'] ++ [])))
      ("derivative", [("with_respect_to", [['n', 'a', 'n']])]) [] :=
    .single (Document.isWord_of_check rfl) (Document.isWord_of_check rfl) (Document.isValue_of_check rfl) nofun
  refine .sections ?_ (.cons hvariables hline (.last hderivative))
  intro hblanks
  cases hblanks 'v' (by decide)

theorem wellSet_boundNan : WellSet boundNanSections where
  layout := by
    intro title entries hs
    simp only [boundNanSections, List.mem_cons, Prod.mk.injEq, List.not_mem_nil, or_false] at hs
    rcases hs with ⟨rfl, rfl⟩ | ⟨rfl, rfl⟩
    · exact ⟨[], List.mem_cons_self, .inl rfl⟩
    · exact ⟨_, List.mem_cons_of_mem _ List.mem_cons_self, .inr (by decide)⟩
  «variables» := by
    intro name values hvalues
    have hname : name = "nan" := by
      obtain ⟨entries, hs, entry, hentry, rfl⟩ :=
        Document.isSome_lastValues_iff.1 (Option.isSome_iff_exists.2 ⟨_, hvalues⟩)
      simp only [boundNanSections, List.mem_cons, Prod.mk.injEq, List.not_mem_nil, or_false] at hs
      obtain ⟨_, rfl⟩ | ⟨hother, _⟩ := hs
      · rw [List.mem_singleton.1 hentry]
      · exact absurd hother (by decide)
    have htwo : lastValues boundNanSections "variables" "nan" = some [.integer 2] := rfl
    rw [hname, htwo] at hvalues
    exact ⟨_, (Option.some.inj hvalues).symm, _, rfl⟩
  passes := nofun
  untilStable := nofun
  maxRounds := nofun
  logLevel := nofun
  logFile := nofun

theorem not_plain_zeros : ¬Plain ['0', '0', '7'] := by
  intro h
  have hread : Value.readWord? ['0', '0', '7'] = some 7 := by decide
  cases h with
  | integer _ hplain =>
    cases hplain with
    | positive hc _ => exact hc rfl
  | float hinteger _ => cases hread.symm.trans hinteger
  | word hinteger _ => cases hread.symm.trans hinteger

theorem kept_names_boundInf :
    ∃ c, ofText boundInf = .ok c ∧ lastTokens boundInfSections "logging" "file" = some [['0', '0', '7']] ∧
      c.logFile ≠ some "007" ∧ WellSet boundInfSections ∧
        lastTokens boundInfSections "derivative" "with_respect_to" = some [['i', 'n', 'f']] ∧
          lastTokens boundInfSections "variables" "inf" = some [['2']] ∧ c.differentiateBy = "inf" := by
  obtain ⟨c, hc⟩ := exists_ofText_boundInf
  have hset := ((exists_ofText_iff writes_boundInf).1 ⟨c, hc⟩).toWellSet
  have hkept : KeptName "inf" := ⟨by decide, fun _ => rfl⟩
  refine ⟨c, hc, rfl, ?_, hset, rfl, rfl, ?_⟩
  · intro hfile
    exact not_plain_zeros (((kept_names writes_boundInf ['0', '0', '7']).1 c hc rfl).1 hfile)
  · obtain ⟨c', hc', hname⟩ := ((kept_names writes_boundInf ['i', 'n', 'f']).2 hset rfl ⟨_, rfl⟩).2 hkept
    obtain rfl := Except.ok.inj (hc.symm.trans hc')
    exact hname

/-- The file `007` is not kept, nor is the variable `nan`, though it has a value and all else is in order. -/
theorem respelled_names :
    (Writes boundInf boundInfSections ∧ lastTokens boundInfSections "logging" "file" = some [['0', '0', '7']] ∧
      ∃ c, ofText boundInf = .ok c ∧ c.logFile = some "7" ∧ c.logFile ≠ some "007") ∧
    Writes boundNan boundNanSections ∧ WellSet boundNanSections ∧
      lastTokens boundNanSections "derivative" "with_respect_to" = some [['n', 'a', 'n']] ∧
        lastTokens boundNanSections "variables" "nan" = some [['2']] ∧
          ofText boundNan = .error (.invalidValue "derivative" "with_respect_to" (.notAVariable "NaN")) := by
  refine ⟨⟨writes_boundInf, rfl, ?_⟩, writes_boundNan, wellSet_boundNan, rfl, rfl, ?_⟩
  · obtain ⟨c, hc⟩ := exists_ofText_boundInf
    have hfile : c.logFile = some "7" := logFile_of_lastTokens writes_boundInf rfl hc
    refine ⟨c, hc, hfile, ?_⟩
    rw [hfile]
    decide
  · have hfault : (match ofText boundNan with
        | .error fault => some fault
        | .ok _ => none) = some (.invalidValue "derivative" "with_respect_to" (.notAVariable "NaN")) := by
      decide +kernel
    cases hload : ofText boundNan with
    | error fault =>
      rw [hload] at hfault
      rw [Option.some.inj hfault]
    | ok c =>
      rw [hload] at hfault
      cases hfault

end ExprCalculus.Settings
