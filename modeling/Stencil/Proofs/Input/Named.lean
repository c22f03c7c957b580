/-
  The sections that an input is read from.

  * `Named`: the sections that the configuration of an input names, by itself or in its
    query;
  * `config_congr`, `plan_congr`, `readContents_congr` and `ofContents_congr`: what each
    stage of the checks reads;
  * `ofSections_eq_of_named`: checking reads the configuration and the sections it names,
    and planning looks no further than whether these are there.
-/
import Stencil.Proofs.Input.Checked

namespace Stencil.Input

/-- The sections that the configuration of an input names, by itself or in its query. -/
inductive Named (settings : Settings) (s : Sections) : String → Prop
  | template {config} : Config.ofSections settings s = .ok config → Named settings s config.template
  | globals {config} : Config.ofSections settings s = .ok config → Named settings s config.globals
  | table {config plan name} : Config.ofSections settings s = .ok config →
      Query.Plan.ofQuery config.repeater = .ok plan → name ∈ plan.names → Named settings s name

/-! ## One section -/

variable {settings : Settings} {s s' : Sections} {config : Config} {plan : Query.Plan}
  {name : String}

theorem require_congr (h : s.lines? name = s'.lines? name) : s.require name = s'.require name := by
  rw [Sections.require, h, ← Sections.require]

theorem contains_congr (h : s.lines? name = s'.lines? name) :
    s.contains name = s'.contains name := by
  rw [Sections.contains, h, ← Sections.contains]

/-- If its lines are not looked at, all that counts is whether a section is there. -/
theorem discard_require_congr (h : s.contains name = s'.contains name) :
    discard (s.require name) = discard (s'.require name) := by
  unfold Sections.contains at h
  unfold Sections.require
  cases hs : s.lines? name with
  | none =>
    cases hs' : s'.lines? name with
    | none => rfl
    | some lines' => simp [hs, hs'] at h
  | some lines =>
    cases hs' : s'.lines? name with
    | none => simp [hs, hs'] at h
    | some lines' => rfl

/-! ## The stages -/

theorem config_congr (h : s.lines? settings.configSection = s'.lines? settings.configSection) :
    Config.ofSections settings s = Config.ofSections settings s' := by
  rw [Config.ofSections, require_congr h, ← Config.ofSections]

theorem plan_congr (htemplate : s.contains config.template = s'.contains config.template)
    (hglobals : s.contains config.globals = s'.contains config.globals)
    (htables : ∀ plan, Query.Plan.ofQuery config.repeater = .ok plan → ∀ name ∈ plan.names,
      s.contains name = s'.contains name) : config.plan s = config.plan s' := by
  unfold Config.plan
  rw [discard_require_congr htemplate, discard_require_congr hglobals]
  refine bind_congr_ok fun _ _ => bind_congr_ok fun _ _ => bind_congr_ok fun plan hplan => ?_
  have hnames := htables plan (mapError_eq_ok.1 hplan)
  exact congrArg (· >>= _) (forM_congr fun name hname => discard_require_congr (hnames name hname))

theorem readContents_congr (hglobals : s.lines? config.globals = s'.lines? config.globals)
    (htables : ∀ name ∈ plan.names, s.lines? name = s'.lines? name) :
    readContents settings s config plan = readContents settings s' config plan := by
  have htable : ∀ name ∈ plan.names,
      readTable settings s config name = readTable settings s' config name := by
    intro name hname
    rw [readTable, require_congr (htables name hname), ← readTable]
  unfold readContents
  rw [require_congr hglobals, mapM_congr htable]

theorem ofContents_congr (h : s.lines? config.template = s'.lines? config.template)
    (contents : Contents) :
    Checked.ofContents s config plan contents = Checked.ofContents s' config plan contents := by
  rw [Checked.ofContents, require_congr h, ← Checked.ofContents]

/-! ## The whole input -/

/-- **An input is read from the sections that it names.**  If two inputs have the same
    configuration and the same lines in the sections that this names, then they are checked with
    the same result and have the same blocks.  If these sections are there in both or
    in neither, whatever they hold, then the inputs have the same plan. -/
theorem ofSections_eq_of_named
    (hconfig : s.lines? settings.configSection = s'.lines? settings.configSection) :
    ((∀ name, Named settings s name → s.lines? name = s'.lines? name) →
      Checked.ofSections settings s = Checked.ofSections settings s' ∧
        (Checked.ofSections settings s >>= Checked.blocks) =
          (Checked.ofSections settings s' >>= Checked.blocks)) ∧
    ((∀ name, Named settings s name → s.contains name = s'.contains name) →
      planOfSections settings s = planOfSections settings s') := by
  have hplan : (∀ name, Named settings s name → s.contains name = s'.contains name) →
      ∀ config, Config.ofSections settings s = .ok config → config.plan s = config.plan s' := by
    intro h config hc
    exact plan_congr (h _ (.template hc)) (h _ (.globals hc))
      fun plan hp name hname => h name (.table hc hp hname)
  constructor
  · intro h
    have hcontains : ∀ name, Named settings s name → s.contains name = s'.contains name :=
      fun name hname => contains_congr (h name hname)
    have hchecked : Checked.ofSections settings s = Checked.ofSections settings s' := by
      rw [Checked.ofSections, Checked.ofSections, ← config_congr hconfig]
      refine bind_congr_ok fun config hc => ?_
      rw [← hplan hcontains config hc]
      refine bind_congr_ok fun plan hp => ?_
      rw [readContents_congr (h _ (.globals hc))
        fun name hname => h name (.table hc (config_plan_eq_ok hp) hname)]
      exact bind_congr_ok fun contents _ => ofContents_congr (h _ (.template hc)) contents
    exact ⟨hchecked, by rw [hchecked]⟩
  · intro h
    rw [planOfSections, planOfSections, ← config_congr hconfig]
    exact bind_congr_ok (hplan h)

/-- A section that is not named can be left out, and the lines of a table do not matter for the
    plan. -/
theorem ofSections_eq_without_note :
    let settings : Settings := ⟨"C", ⟨"t", "g", "r", "f"⟩, "*", "~"⟩
    let common := [("C", "t=T"), ("C", "g=G"), ("C", "r=A"), ("T", "$x"), ("G", "z=1"), ("A", "x")]
    let s : Sections := ⟨groups (common ++ [("A", "1"), ("N", "note")])⟩
    let without : Sections := ⟨groups (common ++ [("A", "1")])⟩
    let broken : Sections := ⟨groups (common ++ [("A", "1,2")])⟩
    Checked.ofSections settings s = Checked.ofSections settings without ∧
      planOfSections settings s = planOfSections settings broken ∧
      (Checked.ofSections settings broken).toOption.isNone := by
  intro settings common s without broken
  have hconfig : Config.ofSections settings s = .ok ⟨"T", "G", "A", false⟩ :=
    toOption_eq_some.1 (by decide +kernel)
  have hplan : Query.Plan.ofQuery "A" = .ok ⟨"A", []⟩ := toOption_eq_some.1 (by decide +kernel)
  have hnamed : ∀ name, Named settings s name → name ∈ ["T", "G", "A"] := by
    rintro _ (h | h | ⟨h, hp, hname⟩)
    · cases hconfig.symm.trans h
      decide
    · cases hconfig.symm.trans h
      decide
    · cases hconfig.symm.trans h
      cases hplan.symm.trans hp
      exact List.mem_cons_of_mem _ (List.mem_cons_of_mem _ hname)
  have hwithout : s.lines? settings.configSection = without.lines? settings.configSection := by
    decide +kernel
  have hlines : ∀ name ∈ ["T", "G", "A"], s.lines? name = without.lines? name := by
    decide +kernel
  have hbroken : s.lines? settings.configSection = broken.lines? settings.configSection := by
    decide +kernel
  have hcontains : ∀ name ∈ ["T", "G", "A"], s.contains name = broken.contains name := by
    decide +kernel
  refine ⟨?_, ?_, by decide +kernel⟩
  · exact ((ofSections_eq_of_named hwithout).1 fun name h => hlines name (hnamed name h)).1
  · exact (ofSections_eq_of_named hbroken).2 fun name h => hcontains name (hnamed name h)

end Stencil.Input
