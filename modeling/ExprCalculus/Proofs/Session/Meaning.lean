import ExprCalculus.Proofs.Document.Layouts
import ExprCalculus.Proofs.Session.OneSetting

/-!
# What a session's text says

`Loadable` lists what the sections of a text have to be like for a session to load, and `Means` what its settings then
are: under each key the value that came last, or what holds without the key. Both speak of the written sections alone.
-/

namespace ExprCalculus.Settings

open Document (Value TokenSections Writes Gives lastValues)

/-! ### What a text says of a session -/

/-- Every title is in the layout, and so are the keys under it; under `variables` any key may stand. -/
def InLayout (sections : TokenSections) : Prop :=
  ∀ title entries, (title, entries) ∈ sections →
    ∃ keys, (title, keys) ∈ layout ∧ (title = "variables" ∨ ∀ entry ∈ entries, entry.1 ∈ keys)

def HasVariables (sections : TokenSections) : Prop := ∃ entries, ("variables", entries) ∈ sections

/-- A session of this text has a variable with this value: it is listed, or it is `x` and nothing is. -/
inductive Assigns (sections : TokenSections) : String → Float → Prop
  | listed {name : String} {v : Value} {x : Float} (hlast : lastValues sections "variables" name = some [v])
      (hx : SaysNumber v x) : Assigns sections name x
  | unlisted (hnone : ¬HasVariables sections) : Assigns sections "x" 0

/-- All settings can be read, the variable to differentiate by apart. -/
structure WellSet (sections : TokenSections) : Prop where
  layout : InLayout sections
  «variables» : ∀ name, OneSuits (fun v => ∃ x, SaysNumber v x) (lastValues sections "variables" name)
  passes : ∀ values, lastValues sections "optimization" "passes" = some values → ∀ v ∈ values, ∃ p, SaysPass v p
  untilStable : OneSuits (fun v => ∃ b, SaysBoolean v b) (lastValues sections "optimization" "until_stable")
  maxRounds : OneSuits (fun v => ∃ n, SaysRounds v n) (lastValues sections "optimization" "max_rounds")
  logLevel : OneSuits (fun v => ∃ level, SaysLevel v level) (lastValues sections "logging" "level")
  logFile : OneSuits (fun v => ∃ file, SaysFile v file) (lastValues sections "logging" "file")

/-- What a session's text has to be like. -/
structure Loadable (sections : TokenSections) : Prop extends WellSet sections where
  differentiateBy : ∃ name, SetTo SaysText "x" (lastValues sections "derivative" "with_respect_to") name ∧
    ∃ x, Assigns sections name x

/-- The settings that a text means. -/
structure Means (sections : TokenSections) (c : Settings) : Prop where
  «variables» : ∀ name x, c.«variables».get? name = some x ↔ Assigns sections name x
  differentiateBy : SetTo SaysText "x" (lastValues sections "derivative" "with_respect_to") c.differentiateBy
  passes : PassesSetTo (lastValues sections "optimization" "passes") c.passes
  untilStable : SetTo SaysBoolean false (lastValues sections "optimization" "until_stable") c.untilStable
  maxRounds : SetTo SaysRounds 16 (lastValues sections "optimization" "max_rounds") c.maxRounds
  logLevel : SetTo SaysLevel .info (lastValues sections "logging" "level") c.logLevel
  logFile : SetTo SaysFile none (lastValues sections "logging" "file") c.logFile

theorem hasVariables_of_lastValues {sections : TokenSections} {name : String} {values : List Value}
    (h : lastValues sections "variables" name = some values) : HasVariables sections := by
  obtain ⟨entries, hs, _⟩ := Document.isSome_lastValues_iff.1 (Option.isSome_iff_exists.2 ⟨values, h⟩)
  exact ⟨entries, hs⟩

/-! ### Reading all settings -/

/-- The only value of a variable says its number. -/
def SaysOneNumber (values : List Value) (x : Float) : Prop := ∃ v, values = [v] ∧ SaysNumber v x

theorem variablesFrom_eq_ok_iff {d : TaskDocument} {content : DocumentSection}
    (hcontent : d.get? "variables" = some content) {bindings : Bindings Float} :
    variablesFrom d = .ok bindings ↔
      ∃ out, List.Forall₂ (fun a b => b.1 = a.1 ∧ SaysOneNumber a.2 b.2) content.toList out ∧
        bindings = Dictionary.ofList out := by
  unfold variablesFrom
  simp only [hcontent, bind_eq_ok_iff, mapM_eq_ok_iff, onlyValue_eq_ok_iff, expectNumber_eq_ok_iff]
  refine exists_congr fun out => and_congr ?_ ?_
  · refine iff_of_eq (congrArg (fun R => List.Forall₂ R content.toList out) ?_)
    funext a b
    obtain ⟨name, x⟩ := b
    refine propext ⟨?_, ?_⟩
    · intro h
      obtain ⟨y, hy, heq⟩ := h
      obtain ⟨rfl, rfl⟩ := Prod.mk.inj (Except.ok.inj heq)
      exact ⟨rfl, hy⟩
    · intro h
      obtain ⟨rfl, hx⟩ := h
      exact ⟨x, hx, rfl⟩
  · exact ⟨fun h => (Except.ok.inj h).symm, fun h => congrArg _ h.symm⟩

section Reading

variable {sections : TokenSections} {d : TaskDocument} (hd : Gives sections d)
include hd

theorem valuesOf?_of_gives (title key : String) : valuesOf? d title key = lastValues sections title key := by
  unfold valuesOf?
  cases hcontent : d.get? title with
  | some content => exact hd.values title content hcontent key
  | none =>
    symm
    rw [Option.bind_none, ← Option.not_isSome_iff_eq_none, Document.isSome_lastValues_iff]
    intro h
    obtain ⟨entries, hs, _⟩ := h
    have hfound := (hd.titles title).2 ⟨entries, hs⟩
    rw [Dictionary.contains, hcontent] at hfound
    cases hfound

theorem requireLayout_layout_iff : Document.requireLayout layout d = .ok () ↔ InLayout sections := by
  rw [hd.requireLayout_eq_ok_iff (by decide)]
  have hany : ∀ title keys, (title, keys) ∈ layout → (keys = [] ↔ title = "variables") := by
    intro title keys hkeys
    simp only [layout, List.mem_cons, Prod.mk.injEq, List.not_mem_nil, or_false] at hkeys
    rcases hkeys with ⟨rfl, rfl⟩ | ⟨rfl, rfl⟩ | ⟨rfl, rfl⟩ | ⟨rfl, rfl⟩ <;> decide
  refine forall₂_congr fun title entries => imp_congr_right fun _ => exists_congr fun keys => ?_
  refine and_congr_right fun hkeys => or_congr_left ?_
  exact hany title keys hkeys

theorem variablesFrom_unlisted (hnone : ¬HasVariables sections) : variablesFrom d = .ok default.«variables» := by
  have hcontent : d.get? "variables" = none := by
    rw [← Option.not_isSome_iff_eq_none]
    exact fun h => hnone ((hd.titles _).1 h)
  unfold variablesFrom
  rw [hcontent]

theorem exists_content (hhas : HasVariables sections) : ∃ content, d.get? "variables" = some content :=
  Option.isSome_iff_exists.1 ((hd.titles _).2 hhas)

theorem exists_variablesFrom_iff :
    (∃ bindings, variablesFrom d = .ok bindings) ↔
      ∀ name, OneSuits (fun v => ∃ x, SaysNumber v x) (lastValues sections "variables" name) := by
  by_cases hhas : HasVariables sections
  · obtain ⟨content, hcontent⟩ := exists_content hd hhas
    simp only [variablesFrom_eq_ok_iff hcontent, ← hd.values _ content hcontent]
    have hmem : ∀ {name values}, (name, values) ∈ content.toList ↔ content.get? name = some values :=
      Dictionary.mem_iff_lookup (hd.distinctKeys _ content hcontent)
    constructor
    · intro h name values hvalues
      obtain ⟨_, out, hout, _⟩ := h
      obtain ⟨b, _, v, hv, hx⟩ := exists_forall₂_iff.1 ⟨out, hout⟩ (name, values) (hmem.2 hvalues)
      exact ⟨v, hv, b.2, hx⟩
    · intro h
      have hentries : ∀ a ∈ content.toList, ∃ b : String × Float, b.1 = a.1 ∧ SaysOneNumber a.2 b.2 := by
        intro a ha
        obtain ⟨v, hv, x, hx⟩ := h a.1 a.2 (hmem.1 ha)
        exact ⟨(a.1, x), rfl, v, hv, hx⟩
      obtain ⟨out, hout⟩ := exists_forall₂_iff.2 hentries
      exact ⟨_, out, hout, rfl⟩
  · refine iff_of_true ⟨_, variablesFrom_unlisted hd hhas⟩ ?_
    intro name values hvalues
    exact absurd (hasVariables_of_lastValues hvalues) hhas

theorem get?_variablesFrom {bindings : Bindings Float} (h : variablesFrom d = .ok bindings) {name : String}
    {x : Float} : bindings.get? name = some x ↔ Assigns sections name x := by
  by_cases hhas : HasVariables sections
  · obtain ⟨content, hcontent⟩ := exists_content hd hhas
    obtain ⟨out, hout, rfl⟩ := (variablesFrom_eq_ok_iff hcontent).1 h
    -- The names of a section are distinct, so that building the bindings loses none of its entries.
    have hdistinct : (out.map Prod.fst).Nodup := by
      rw [map_fst_of_forall₂ (fun hab => hab.1) hout]
      exact hd.distinctKeys _ content hcontent
    have hfound : Option.Rel SaysOneNumber (lastValues sections "variables" name) (out.lookup name) := by
      rw [← hd.values _ content hcontent]
      exact Dictionary.lookup_forall₂ hout
    rw [Dictionary.get?_ofList, Dictionary.lookup_reverse hdistinct]
    constructor
    · intro hx
      rw [hx] at hfound
      generalize hlast : lastValues sections "variables" name = values at hfound
      cases hfound with
      | some hone =>
        obtain ⟨v, rfl, hv⟩ := hone
        exact .listed hlast hv
    · intro hassigns
      cases hassigns with
      | listed hlast hx =>
        rw [hlast] at hfound
        generalize out.lookup name = result at hfound ⊢
        cases hfound with
        | some hone =>
          obtain ⟨v, hv, hy⟩ := hone
          obtain rfl := (List.cons.inj hv).1
          exact hy.symm.trans hx
      | unlisted hnone => exact absurd hhas hnone
  · obtain rfl := Except.ok.inj ((variablesFrom_unlisted hd hhas).symm.trans h)
    rw [default, Dictionary.get?_insert]
    constructor
    · intro hx
      split at hx
      · rename_i hname
        rw [hname, ← Option.some.inj hx]
        exact .unlisted hhas
      · cases hx
    · intro hassigns
      cases hassigns with
      | listed hlast => exact absurd (hasVariables_of_lastValues hlast) hhas
      | unlisted => exact if_pos rfl

/-! ### All settings together -/

theorem differentiateByFrom_eq_ok_iff {bindings : Bindings Float} (h : variablesFrom d = .ok bindings) {name : String} :
    differentiateByFrom d bindings = .ok name ↔
      SetTo SaysText "x" (lastValues sections "derivative" "with_respect_to") name ∧ ∃ x, Assigns sections name x := by
  have hset : ∀ name, setting d "derivative" "with_respect_to" default.differentiateBy expectText = .ok name ↔
      SetTo SaysText "x" (lastValues sections "derivative" "with_respect_to") name :=
    fun _ => setting_eq_ok_iff (valuesOf?_of_gives hd _ _) fun _ _ _ => expectText_eq_ok_iff
  have hbound : ∀ name, bindings.contains name = true ↔ ∃ x, Assigns sections name x := by
    intro name
    rw [Dictionary.contains, Option.isSome_iff_exists]
    exact exists_congr fun x => get?_variablesFrom hd h
  unfold differentiateByFrom
  simp only [bind_eq_ok_iff, hset]
  constructor
  · intro h'
    obtain ⟨name', hname, h'⟩ := h'
    split at h'
    · rename_i hcontains
      obtain rfl := Except.ok.inj h'
      exact ⟨hname, (hbound _).1 hcontains⟩
    · cases h'
  · intro h'
    obtain ⟨hname, hassigns⟩ := h'
    refine ⟨name, hname, ?_⟩
    rw [if_pos ((hbound name).2 hassigns)]
    rfl

theorem passesFrom_eq_ok_iff {passes : List Pass} :
    passesFrom d = .ok passes ↔ PassesSetTo (lastValues sections "optimization" "passes") passes := by
  unfold passesFrom
  rw [valuesOf?_of_gives hd]
  cases lastValues sections "optimization" "passes" with
  | none =>
    constructor
    · intro h
      obtain rfl := Except.ok.inj h
      exact .absent
    · intro h
      cases h
      rfl
  | some values =>
    simp only [mapError_eq_ok_iff, mapM_eq_ok_iff, expectPass_eq_ok_iff]
    constructor
    · exact .given
    · intro h
      cases h with
      | given h => exact h

theorem maxRounds_eq_ok_iff {n : Nat} :
    setting d "optimization" "max_rounds" default.maxRounds expectPositive = .ok n ↔
      SetTo SaysRounds 16 (lastValues sections "optimization" "max_rounds") n := by
  refine setting_eq_ok_iff (valuesOf?_of_gives hd _ _) ?_
  intro v hv n
  rw [expectPositive_eq_ok_iff, SaysRounds, ← and_assoc, iff_self_and]
  intro h
  obtain ⟨rfl, _⟩ := h
  have hword := Document.isWord_of_lastValues hv List.mem_cons_self
  simp only [Value.isWord, Bool.and_eq_true, decide_eq_true_eq] at hword
  have hlt : (n : Int) < 2 ^ 63 := hword.2
  have hfits : n < 2 ^ 64 := by omega
  exact hfits

/-- The settings read from a document are those that its text means, and bind the variable to differentiate by. -/
theorem readFrom_iff {c : Settings} :
    ReadFrom d c ↔
      variablesFrom d = .ok c.«variables» ∧ (∃ x, Assigns sections c.differentiateBy x) ∧ Means sections c := by
  have hstable : ∀ b, setting d "optimization" "until_stable" default.untilStable expectBoolean = .ok b ↔
      SetTo SaysBoolean false (lastValues sections "optimization" "until_stable") b :=
    fun _ => setting_eq_ok_iff (valuesOf?_of_gives hd _ _) fun _ _ _ => expectBoolean_eq_ok_iff
  have hlevel : ∀ level, setting d "logging" "level" default.logLevel expectLevel = .ok level ↔
      SetTo SaysLevel .info (lastValues sections "logging" "level") level :=
    fun _ => setting_eq_ok_iff (valuesOf?_of_gives hd _ _) fun _ _ _ => expectLevel_eq_ok_iff
  have hfile : ∀ file, setting d "logging" "file" default.logFile (fun v => (expectText v).map some) = .ok file ↔
      SetTo SaysFile none (lastValues sections "logging" "file") file :=
    fun _ => setting_eq_ok_iff (valuesOf?_of_gives hd _ _) fun _ _ _ => expectFile_eq_ok_iff
  constructor
  · intro h
    obtain ⟨hname, hassigns⟩ := (differentiateByFrom_eq_ok_iff hd h.variables).1 h.differentiateBy
    exact ⟨h.variables, hassigns, fun _ _ => get?_variablesFrom hd h.variables, hname,
      (passesFrom_eq_ok_iff hd).1 h.passes, (hstable _).1 h.untilStable, (maxRounds_eq_ok_iff hd).1 h.maxRounds,
      (hlevel _).1 h.logLevel, (hfile _).1 h.logFile⟩
  · intro h
    obtain ⟨hvariables, hassigns, hc⟩ := h
    exact ⟨hvariables, (differentiateByFrom_eq_ok_iff hd hvariables).2 ⟨hc.differentiateBy, hassigns⟩,
      (passesFrom_eq_ok_iff hd).2 hc.passes, (hstable _).2 hc.untilStable, (maxRounds_eq_ok_iff hd).2 hc.maxRounds,
      (hlevel _).2 hc.logLevel, (hfile _).2 hc.logFile⟩

/-- A document in the layout gives settings just when its text can be loaded. -/
theorem exists_readFrom_iff (hlayout : InLayout sections) : (∃ c, ReadFrom d c) ↔ Loadable sections := by
  simp only [readFrom_iff hd]
  constructor
  · intro h
    obtain ⟨c, hvariables, hassigns, hc⟩ := h
    have hset : WellSet sections :=
      { layout := hlayout
        «variables» := (exists_variablesFrom_iff hd).1 ⟨_, hvariables⟩
        passes := exists_passesSetTo_iff.1 ⟨_, hc.passes⟩
        untilStable := (exists_setTo_iff _).1 ⟨_, hc.untilStable⟩
        maxRounds := (exists_setTo_iff _).1 ⟨_, hc.maxRounds⟩
        logLevel := (exists_setTo_iff _).1 ⟨_, hc.logLevel⟩
        logFile := (exists_setTo_iff _).1 ⟨_, hc.logFile⟩ }
    exact ⟨hset, _, hc.differentiateBy, hassigns⟩
  · intro h
    obtain ⟨bindings, hvariables⟩ := (exists_variablesFrom_iff hd).2 h.variables
    obtain ⟨name, hname, hassigns⟩ := h.differentiateBy
    obtain ⟨passes, hpasses⟩ := exists_passesSetTo_iff.2 h.passes
    obtain ⟨stable, hstable⟩ := (exists_setTo_iff false).2 h.untilStable
    obtain ⟨rounds, hrounds⟩ := (exists_setTo_iff 16).2 h.maxRounds
    obtain ⟨level, hlevel⟩ := (exists_setTo_iff .info).2 h.logLevel
    obtain ⟨file, hfile⟩ := (exists_setTo_iff none).2 h.logFile
    exact ⟨⟨bindings, name, passes, stable, rounds, level, file⟩, hvariables, hassigns,
      fun _ _ => get?_variablesFrom hd hvariables, hname, hpasses, hstable, hrounds, hlevel, hfile⟩

end Reading

section Sessions

variable {text : String} {sections : TokenSections} (hwrites : Writes text sections)
include hwrites

theorem ofText_of_writes :
    ∃ d, Gives sections d ∧ ∀ c, ofText text = .ok c ↔ InLayout sections ∧ ReadFrom d c := by
  obtain ⟨d, hread, hd⟩ := hwrites.gives
  refine ⟨d, hd, ?_⟩
  intro c
  rw [ofText_eq_ok_iff, ← requireLayout_layout_iff hd]
  constructor
  · intro h
    obtain ⟨d', hread', hlayout, hc⟩ := h
    obtain rfl := Except.ok.inj (hread.symm.trans hread')
    exact ⟨hlayout, hc⟩
  · intro h
    obtain ⟨hlayout, hc⟩ := h
    exact ⟨d, hread, hlayout, hc⟩

theorem exists_ofText_iff : (∃ c, ofText text = .ok c) ↔ Loadable sections := by
  obtain ⟨d, hd, hread⟩ := ofText_of_writes hwrites
  simp only [hread]
  constructor
  · intro h
    obtain ⟨c, hlayout, hc⟩ := h
    exact (exists_readFrom_iff hd hlayout).1 ⟨c, hc⟩
  · intro h
    obtain ⟨c, hc⟩ := (exists_readFrom_iff hd h.layout).2 h
    exact ⟨c, h.layout, hc⟩

theorem means_of_ofText {c : Settings} (h : ofText text = .ok c) : Means sections c := by
  obtain ⟨d, hd, hread⟩ := ofText_of_writes hwrites
  exact ((readFrom_iff hd).1 ((hread c).1 h).2).2.2

end Sessions

theorem one_le_maxRounds {sections : TokenSections} {c : Settings} (h : Means sections c) : 1 ≤ c.maxRounds := by
  generalize hfound : lastValues sections "optimization" "max_rounds" = found
  have hset := h.maxRounds
  rw [hfound] at hset
  generalize c.maxRounds = n at hset ⊢
  cases hset with
  | given hmeaning => exact hmeaning.2.1
  | absent => decide

/-- A session's text loads just when it is in the format and all that it sets can be read. Its settings are then what
the text means, the variable to differentiate by has a value, and at least one round may run. -/
theorem ofText_iff_loadable (text : String) :
    ((∃ c, ofText text = .ok c) ↔ ∃ sections, Writes text sections ∧ Loadable sections) ∧
      ∀ sections c, Writes text sections → ofText text = .ok c →
        Loadable sections ∧ Means sections c ∧ c.«variables».contains c.differentiateBy = true ∧ 1 ≤ c.maxRounds := by
  constructor
  · constructor
    · intro h
      obtain ⟨c, hc⟩ := h
      obtain ⟨d, hd, _, _⟩ := ofText_eq_ok_iff.1 hc
      obtain ⟨sections, hwrites⟩ := Document.exists_writes_of_ofText hd
      exact ⟨sections, hwrites, (exists_ofText_iff hwrites).1 ⟨c, hc⟩⟩
    · intro h
      obtain ⟨sections, hwrites, hload⟩ := h
      exact (exists_ofText_iff hwrites).2 hload
  · intro sections c hwrites hc
    have hmeans := means_of_ofText hwrites hc
    exact ⟨(exists_ofText_iff hwrites).1 ⟨c, hc⟩, hmeans, contains_differentiateBy hc, one_le_maxRounds hmeans⟩

/-- A session whose only variable is called `inf`. -/
def boundInf : String := "variables\n inf: 2\nderivative\n with_respect_to: inf\nlogging\n file: 007\n"

def boundInfSections : TokenSections :=
  [("variables", [("inf", [['2']])]), ("derivative", [("with_respect_to", [['i', 'n', 'f']])]),
    ("logging", [("file", [['0', '0', '7']])])]

theorem writes_boundInf : Writes boundInf boundInfSections := by
  have hline : Document.Gap ['\n'] := ⟨List.cons_ne_nil _ _, List.all_eq_true.1 rfl⟩
  have hname : Document.IsWord ['i', 'n', 'f'] := Document.isWord_of_check rfl
  have hvariables : Document.BlockAt
      ("variables".toList ++ '\n' :: ' ' :: (['i', 'n', 'f'] ++ ':' :: ' ' :: (['2'] ++
        (['\n'] ++ "derivative\n with_respect_to: inf\nlogging\n file: 007".toList))))
      ("variables", [("inf", [['2']])])
      (['\n'] ++ "derivative\n with_respect_to: inf\nlogging\n file: 007".toList) :=
    .single (Document.isWord_of_check rfl) hname (Document.isValue_of_check rfl) (Document.stopsAt_cons rfl)
  have hderivative : Document.BlockAt
      ("derivative".toList ++ '\n' :: ' ' :: ("with_respect_to".toList ++ ':' :: ' ' :: (['i', 'n', 'f'] ++
        (['\n'] ++ "logging\n file: 007".toList))))
      ("derivative", [("with_respect_to", [['i', 'n', 'f']])]) (['\n'] ++ "logging\n file: 007".toList) :=
    .single (Document.isWord_of_check rfl) (Document.isWord_of_check rfl) (Document.isValue_of_check rfl)
      (Document.stopsAt_cons rfl)
  have hlogging : Document.BlockAt
      ("logging".toList ++ '\n' :: ' ' :: ("file".toList ++ ':' :: ' ' :: (['0', '0', '7'] ++ [])))
      ("logging", [("file", [['0', '0', '7']])]) [] :=
    .single (Document.isWord_of_check rfl) (Document.isWord_of_check rfl) (Document.isValue_of_check rfl) nofun
  refine .sections ?_ (.cons hvariables hline (.cons hderivative hline (.last hlogging)))
  intro hblanks
  cases hblanks 'v' (by decide)

theorem exists_ofText_boundInf : ∃ c, ofText boundInf = .ok c := by
  have hok : (ofText boundInf).isOk = true := by decide +kernel
  cases hload : ofText boundInf with
  | error fault =>
    rw [hload] at hok
    cases hok
  | ok c => exact ⟨c, rfl⟩

theorem ofText_iff_loadable_boundInf :
    Writes boundInf boundInfSections ∧ Loadable boundInfSections ∧
      ∃ c, ofText boundInf = .ok c ∧ c.«variables».get? "inf" = some (Float.ofInt 2) ∧ c.«variables».get? "x" = none ∧
        c.differentiateBy = "inf" ∧ c.maxRounds = 16 ∧ c.logFile = some "7" := by
  obtain ⟨c, hc⟩ := exists_ofText_boundInf
  obtain ⟨hload, hmeans, _, _⟩ := (ofText_iff_loadable boundInf).2 _ c writes_boundInf hc
  have hnumber : lastValues boundInfSections "variables" "inf" = some [.integer 2] := rfl
  have hname : lastValues boundInfSections "derivative" "with_respect_to" = some [.float Decimal.infinity] := rfl
  have hfile : lastValues boundInfSections "logging" "file" = some [.integer 7] := rfl
  have hrounds : lastValues boundInfSections "optimization" "max_rounds" = none := rfl
  refine ⟨writes_boundInf, hload, c, hc, ?_, ?_, ?_, ?_, ?_⟩
  · exact (hmeans.variables _ _).2 (.listed hnumber rfl)
  · refine Option.eq_none_iff_forall_not_mem.2 fun x hx => ?_
    cases (hmeans.variables _ x).1 hx with
    | listed hlast => cases hlast
    | unlisted hnone => exact hnone (hasVariables_of_lastValues hnumber)
  · exact says_of_setTo hname hmeans.differentiateBy
  · exact eq_of_setTo hrounds hmeans.maxRounds
  · exact says_of_setTo hfile hmeans.logFile

end ExprCalculus.Settings
