import Mathlib.Tactic.Choose
import Tsql.Proofs.TreeChanges
import Tsql.Run

/-!
# Scripts that are saved

With a folder for its output a run saves the text made of each script
under the path of that script below its input. These paths are told apart
within one input only: two inputs may hold scripts of one relative path,
and then the later text takes the place of the earlier one.

- **Where** (`relative_of_scripts`): a relative path is made up of names of
  entries, so that different ones lead to different places in the output.
- **What stays** (`keeps_applyAll`): a file that was saved is changed only
  by a later effect that saves to the same place.
- **What is there in the end** (`read_of_last`): the text of the last
  script of that relative path.

So every script is to be found in the output just if those of one relative
path have one text.
-/

namespace Tsql

open Tsql.Path (EntryName below)

/-! ## Names of entries -/

/-- A tree whose entries have names by which they can be reached. -/
inductive Tree.Proper {α : Type} : Tree α → Prop where
  | file (content : α) : Proper (.file content)
  | folder {entries : List (Text × Tree α)} (names : ∀ entry ∈ entries, EntryName entry.1)
      (inside : ∀ entry ∈ entries, Proper entry.2) : Proper (.folder entries)

theorem Tree.Proper.get? {α : Type} {t entry : Tree α} (h : t.Proper) {names : List Text}
    (hentry : t.get? names = some entry) : entry.Proper := by
  induction names generalizing t with
  | nil =>
      obtain rfl := Option.some.inj hentry
      exact h
  | cons name names ih =>
      cases h with
      | file content => cases hentry
      | @folder entries hnames hinside =>
          rw [Tree.get?, Option.bind_eq_some_iff] at hentry
          obtain ⟨inner, hinner, hentry⟩ := hentry
          obtain ⟨before, after, rfl, -⟩ := List.lookup_eq_some_iff.mp hinner
          exact ih (hinside (name, inner) (by simp)) hentry

namespace Collect

/-- Names that lead to something below a folder. -/
structure Leads (names : List Text) : Prop where
  nonempty : names ≠ []
  proper : ∀ name ∈ names, EntryName name

mutual

theorem leads_of_scriptsIn {α : Type} (entries : List (Text × Tree α))
    (hnames : ∀ entry ∈ entries, EntryName entry.1)
    (hinside : ∀ entry ∈ entries, entry.2.Proper) {names : List Text}
    (h : names ∈ scriptsIn entries) : Leads names :=
  match entries with
  | [] => by cases h
  | (name, entry) :: more => by
      rw [scriptsIn] at h
      rcases List.mem_append.mp h with h | h
      · exact leads_of_scriptsAt name (hnames _ List.mem_cons_self) entry
          (hinside _ List.mem_cons_self) h
      · exact leads_of_scriptsIn more (fun e he => hnames e (List.mem_cons_of_mem _ he))
          (fun e he => hinside e (List.mem_cons_of_mem _ he)) h

theorem leads_of_scriptsAt {α : Type} (name : Text) (hname : EntryName name) (entry : Tree α)
    (hproper : entry.Proper) {names : List Text} (h : names ∈ scriptsAt name entry) :
    Leads names :=
  match entry with
  | .file content => by
      rw [scriptsAt] at h
      split at h
      · obtain rfl := List.mem_singleton.mp h
        exact ⟨List.cons_ne_nil _ _, by simpa using hname⟩
      · cases h
  | .folder entries => by
      rw [scriptsAt] at h
      split at h
      · cases h
      · obtain ⟨inner, hinner, rfl⟩ := List.mem_map.mp h
        have ⟨hnames, hinside⟩ : (∀ e ∈ entries, EntryName e.1) ∧ ∀ e ∈ entries, e.2.Proper := by
          cases hproper with
          | folder hnames hinside => exact ⟨hnames, hinside⟩
        have hleads := leads_of_scriptsIn entries hnames hinside hinner
        refine ⟨List.cons_ne_nil _ _, ?_⟩
        intro n hn
        rcases List.mem_cons.mp hn with rfl | hn
        · exact hname
        · exact hleads.proper n hn

end

theorem relative_of_fromInput {α : Type} {files entry : Tree α} {here : List Text}
    (hfiles : files.Proper) {input : Text} (hfind : files.find input here = .ok entry)
    {script : ScriptFile} (h : script ∈ fromInput input entry) :
    ∃ names, Leads names ∧ script.relative = below names := by
  cases entry with
  | file content =>
      obtain rfl := List.mem_singleton.mp h
      obtain ⟨name, hname, hproper⟩ := Tree.fileName?_of_find hfind
      exact ⟨[name], ⟨List.cons_ne_nil _ _, by simpa using hproper⟩, by rw [hname]; rfl⟩
  | folder entries =>
      rw [fromInput] at h
      split at h
      · cases h
      · obtain ⟨names, hmem, rfl⟩ := List.mem_map.mp h
        obtain ⟨place, -, hentries⟩ := Tree.find_eq_ok_iff.mp hfind
        cases hfiles.get? hentries with
        | folder hnames hinside =>
            exact ⟨names, leads_of_scriptsIn entries hnames hinside (List.mem_mergeSort.mp hmem),
              rfl⟩

/-- A relative path is made up of names. -/
theorem relative_of_scripts {α : Type} {files : Tree α} {here : List Text}
    (hfiles : files.Proper) {inputs : List Text} {scripts : List ScriptFile}
    (h : Collect.scripts (fun path => (files.find path here).toOption) inputs = .ok scripts)
    {script : ScriptFile} (hscript : script ∈ scripts) :
    ∃ names, Leads names ∧ script.relative = below names := by
  induction inputs generalizing scripts with
  | nil =>
      obtain rfl := Except.ok.inj h
      cases hscript
  | cons input more ih =>
      rw [Collect.scripts] at h
      split at h
      · cases h
      · rename_i entry hentry
        obtain ⟨rest, hrest, h⟩ := Pass.bind_eq_ok_iff.mp h
        obtain rfl := Except.ok.inj h
        rcases List.mem_append.mp hscript with hscript | hscript
        · exact relative_of_fromInput hfiles (Pass.eq_ok_of_toOption hentry) hscript
        · exact ih hrest hscript

end Collect

/-! ## Effects on files -/

theorem mapError_eq_ok_iff {ε ε' α : Type} {f : ε → ε'} {x : Except ε α} {a : α} :
    x.mapError f = .ok a ↔ x = .ok a := by
  cases x <;> simp [Except.mapError]

namespace World

variable {w w' : World}

theorem apply_save {path text : Text} (h : w.apply (.save path text) = .ok w') :
    w'.here = w.here ∧ ∃ names, w'.files.locate path w.here = .ok names ∧
      w'.files.get? names = some (.file (Encoding.bytesOf text)) ∧
      w.files.Keeps (· = names) w'.files := by
  obtain ⟨made, hmade, h⟩ := Pass.bind_eq_ok_iff.mp h
  obtain ⟨written, hwritten, h⟩ := Pass.bind_eq_ok_iff.mp h
  obtain rfl := Except.ok.inj h
  have hfolders := Tree.keeps_makeFoldersFrom (mapError_eq_ok_iff.mp hmade)
  obtain ⟨names, hnames, hfile, hkeeps⟩ := Tree.write_eq_ok (mapError_eq_ok_iff.mp hwritten)
  exact ⟨rfl, names, hnames, hfile, (hfolders.mono fun _ h => h.elim).trans hkeeps⟩

/-- Effects are carried out in one working folder. -/
theorem here_apply {effect : Effect} (h : w.apply effect = .ok w') : w'.here = w.here := by
  cases effect with
  | complain line =>
      obtain rfl := Except.ok.inj h
      rfl
  | print text =>
      obtain rfl := Except.ok.inj h
      rfl
  | save path text => exact (apply_save h).1

/-- The places that effects save to, as the files are in the end. -/
def SavedAt (effects : List Effect) (files : Tree ByteArray) (here names : List Text) : Prop :=
  ∃ path text, .save path text ∈ effects ∧ files.locate path here = .ok names

theorem keeps_apply {effect : Effect} (h : w.apply effect = .ok w') :
    w.files.Keeps (SavedAt [effect] w'.files w.here) w'.files := by
  cases effect with
  | complain line =>
      obtain rfl := Except.ok.inj h
      exact .refl ..
  | print text =>
      obtain rfl := Except.ok.inj h
      exact .refl ..
  | save path text =>
      obtain ⟨-, names, hnames, -, hkeeps⟩ := apply_save h
      refine hkeeps.mono fun names' heq => ⟨path, text, List.mem_cons_self, ?_⟩
      rw [heq, hnames]

theorem applyAll_cons {effect : Effect} {more : List Effect} :
    w.applyAll (effect :: more) = (w', none) ↔
      ∃ next, w.apply effect = .ok next ∧ next.applyAll more = (w', none) := by
  rw [applyAll]
  split
  · rename_i next hnext
    simp [hnext]
  · rename_i failure hfailure
    simp [hfailure]

theorem applyAll_append {effects more : List Effect} :
    w.applyAll (effects ++ more) = (w', none) ↔
      ∃ next, w.applyAll effects = (next, none) ∧ next.applyAll more = (w', none) := by
  induction effects generalizing w with
  | nil =>
      rw [List.nil_append, applyAll]
      simp
  | cons effect effects ih =>
      simp only [List.cons_append, applyAll_cons, ih]
      constructor
      · rintro ⟨first, hfirst, next, hnext, hmore⟩
        exact ⟨next, ⟨first, hfirst, hnext⟩, hmore⟩
      · rintro ⟨next, ⟨first, hfirst, hnext⟩, hmore⟩
        exact ⟨first, hfirst, next, hnext, hmore⟩

theorem here_applyAll {effects : List Effect} (h : w.applyAll effects = (w', none)) :
    w'.here = w.here := by
  induction effects generalizing w with
  | nil =>
      obtain ⟨rfl, -⟩ := Prod.mk.inj h
      rfl
  | cons effect more ih =>
      obtain ⟨next, hnext, hmore⟩ := applyAll_cons.mp h
      rw [ih hmore, here_apply hnext]

/-- Effects change no file but those they save. -/
theorem keeps_applyAll {effects : List Effect} (h : w.applyAll effects = (w', none)) :
    w.files.Keeps (SavedAt effects w'.files w.here) w'.files := by
  induction effects generalizing w with
  | nil =>
      obtain ⟨rfl, -⟩ := Prod.mk.inj h
      exact .refl ..
  | cons effect more ih =>
      obtain ⟨next, hnext, hmore⟩ := applyAll_cons.mp h
      have hrest := ih hmore
      rw [here_apply hnext] at hrest
      -- a place that is saved to first is still there in the end
      have hfirst : w.files.Keeps (SavedAt (effect :: more) w'.files w.here) next.files := by
        refine (keeps_apply hnext).mono ?_
        rintro names ⟨path, text, hmem, hnames⟩
        obtain rfl := List.mem_singleton.mp hmem
        exact ⟨path, text, List.mem_cons_self, hrest.locate hnames⟩
      refine hfirst.trans (hrest.mono ?_)
      rintro names ⟨path, text, hmem, hnames⟩
      exact ⟨path, text, List.mem_cons_of_mem _ hmem, hnames⟩

/-- What is saved is there in the end, unless something else is saved to
the same place. -/
theorem read_of_applyAll {before after : List Effect} {path text : Text}
    (h : w.applyAll (before ++ .save path text :: after) = (w', none))
    (hlast : ∀ names, w'.files.locate path w.here = .ok names →
      ¬ SavedAt after w'.files w.here names) :
    w'.files.read path w.here = .ok (Encoding.bytesOf text) := by
  obtain ⟨first, hfirst, h⟩ := applyAll_append.mp h
  obtain ⟨next, hnext, hafter⟩ := applyAll_cons.mp h
  obtain ⟨-, names, hnames, hfile, -⟩ := apply_save hnext
  have hkeeps := keeps_applyAll hafter
  rw [here_apply hnext] at hkeeps
  rw [here_applyAll hfirst] at hnames hkeeps
  have hplace := hkeeps.locate hnames
  exact Tree.read_eq_ok_iff.mpr
    ⟨names, hplace, hkeeps.files names _ hfile (hlast names hplace)⟩

end World

/-! ## The plan of a run -/

/-- What is done with a script that was treated. -/
def Invocation.effectsOf (inv : Invocation) (script : ScriptFile) (outcome : Pass.Outcome) :
    List Effect :=
  if outcome.isOk then inv.emission script outcome.output
  else outcome.problems.map (complaint script)

theorem Invocation.effects_planFrom (inv : Invocation) {scripts : List ScriptFile}
    {treated : ScriptFile → Except Failure Pass.Outcome} {outcome : ScriptFile → Pass.Outcome}
    (h : ∀ script ∈ scripts, treated script = .ok (outcome script)) (failed : Nat) :
    (inv.planFrom failed (scripts.map fun script => (script, treated script))).effects =
      scripts.flatMap fun script => inv.effectsOf script (outcome script) := by
  induction scripts generalizing failed with
  | nil =>
      rw [List.map_nil, planFrom]
      split <;> rfl
  | cons script more ih =>
      have hmore := ih fun s hs => h s (List.mem_cons_of_mem _ hs)
      rw [List.map_cons, h script List.mem_cons_self, planFrom, List.flatMap_cons, effectsOf]
      split
      · rw [Plan.after, hmore]
      · rw [Plan.after, hmore]

theorem Invocation.effects_plan (inv : Invocation) {pass : Pass} {files : Tree ByteArray}
    {here : List Text} {scripts : List ScriptFile} {outcome : ScriptFile → Pass.Outcome}
    (h : ∀ s ∈ scripts, treat pass inv.level s (files.read s.path here) = .ok (outcome s)) :
    (inv.plan pass (scripts.map fun s => (s, files.read s.path here))).effects =
      scripts.flatMap fun s => inv.effectsOf s (outcome s) := by
  rw [plan, List.map_map]
  exact inv.effects_planFrom h 0

section Saved

variable {inv : Invocation} {out : Text} {outcome : ScriptFile → Pass.Outcome}

theorem effectsOf_ok (hemits : inv.emits = true) (hout : inv.value? .outDir = some out)
    {script : ScriptFile} (hok : (outcome script).isOk = true) :
    inv.effectsOf script (outcome script) =
      [.save (Path.join out script.relative) (outcome script).output] := by
  rw [Invocation.effectsOf, if_pos hok, Invocation.emission, if_pos hemits, hout]

theorem exists_of_savedAt (hemits : inv.emits = true) (hout : inv.value? .outDir = some out)
    {scripts : List ScriptFile} {files : Tree ByteArray} {here names : List Text}
    (h : World.SavedAt (scripts.flatMap fun script => inv.effectsOf script (outcome script))
      files here names) :
    ∃ script ∈ scripts, (outcome script).isOk = true ∧
      files.locate (Path.join out script.relative) here = .ok names := by
  obtain ⟨path, text, hmem, hnames⟩ := h
  obtain ⟨script, hscript, heffect⟩ := List.mem_flatMap.mp hmem
  by_cases hok : (outcome script).isOk = true
  · rw [effectsOf_ok hemits hout hok, List.mem_singleton] at heffect
    cases heffect
    exact ⟨script, hscript, hok, hnames⟩
  · rw [Invocation.effectsOf, if_neg hok] at heffect
    obtain ⟨problem, -, hproblem⟩ := List.mem_map.mp heffect
    cases hproblem

/-- In the end the output holds the text of the last script of a relative
path. -/
theorem read_of_last (hemits : inv.emits = true) (hout : inv.value? .outDir = some out)
    {scripts before after : List ScriptFile} {script : ScriptFile} {w w' : World}
    (hrelative : ∀ s ∈ scripts, ∃ names, Collect.Leads names ∧ s.relative = below names)
    (hwritten : w.applyAll (scripts.flatMap fun s => inv.effectsOf s (outcome s)) = (w', none))
    (hsplit : scripts = before ++ script :: after) (hok : (outcome script).isOk = true)
    (hlast : ∀ s ∈ after, (outcome s).isOk = true → s.relative ≠ script.relative) :
    w'.files.read (Path.join out script.relative) w.here =
      .ok (Encoding.bytesOf (outcome script).output) := by
  subst hsplit
  rw [List.flatMap_append, List.flatMap_cons, effectsOf_ok hemits hout hok,
    List.singleton_append] at hwritten
  refine World.read_of_applyAll hwritten fun place hplace hsaved => ?_
  obtain ⟨s, hs, hsok, hsplace⟩ := exists_of_savedAt hemits hout hsaved
  obtain ⟨names, hnames, heq⟩ := hrelative script (by simp)
  obtain ⟨names', hnames', heq'⟩ := hrelative s (by simp [hs])
  rw [heq] at hplace
  rw [heq'] at hsplace
  have hsame := Tree.locate_join_inj hnames'.nonempty hnames.nonempty hnames'.proper hnames.proper
    hsplace hplace
  exact hlast s hs hsok (by rw [heq, heq', hsame])

end Saved

/-! ## Runs -/

/-- The text that is made of a script without problems. -/
def Makes (files : Tree ByteArray) (here : List Text) (inv : Invocation) (pass : Pass)
    (script : ScriptFile) (text : Text) : Prop :=
  ∃ outcome, treat pass inv.level script (files.read script.path here) = .ok outcome ∧
    outcome.isOk = true ∧ outcome.output = text

theorem bytesOf_injective {t u : Text} (h : Encoding.bytesOf t = Encoding.bytesOf u) : t = u :=
  String.ofList_injective (String.toByteArray_inj.mp h)

theorem exists_last {α : Type} {p : α → Prop} {l : List α} (h : ∃ a ∈ l, p a) :
    ∃ before a after, l = before ++ a :: after ∧ p a ∧ ∀ b ∈ after, ¬ p b := by
  induction l with
  | nil => simp at h
  | cons x more ih =>
      by_cases hmore : ∃ a ∈ more, p a
      · obtain ⟨before, a, after, rfl, ha, hafter⟩ := ih hmore
        exact ⟨x :: before, a, after, rfl, ha, hafter⟩
      · obtain ⟨a, ha, hpa⟩ := h
        rcases List.mem_cons.mp ha with rfl | ha
        · exact ⟨[], a, more, rfl, hpa, fun b hb hpb => hmore ⟨b, hb, hpb⟩⟩
        · exact absurd ⟨a, ha, hpa⟩ hmore

/-- A run in some folder that has a folder for its output, treats each of
the scripts that were found and saves what it is to save. -/
structure SavingRun (files : Tree ByteArray) (here arguments : List Text) (inv : Invocation)
    (out : Text) (pass : Pass) (scripts : List ScriptFile) : Prop where
  proper : files.Proper
  reads : Invocation.read arguments = .ok inv
  emits : inv.emits = true
  into : inv.value? .outDir = some out
  prepares : inv.pass (fun path => files.read path here) = .ok pass
  collects :
    Collect.scripts (fun path => (files.find path here).toOption) inv.inputs = .ok scripts
  treats : ∀ s ∈ scripts, ∃ outcome,
    treat pass inv.level s (files.read s.path here) = .ok outcome
  saves : (World.applyAll ⟨files, here, [], []⟩
    (inv.plan pass (scripts.map fun s => (s, files.read s.path here))).effects).2 = none

namespace SavingRun

variable {files : Tree ByteArray} {here arguments : List Text} {inv : Invocation} {out : Text}
  {pass : Pass} {scripts : List ScriptFile}

/-- What a run leaves behind is what its effects do. -/
theorem files_eq (run : SavingRun files here arguments inv out pass scripts) (hne : scripts ≠ []) :
    (runIn files arguments here).2.files =
      (World.applyAll ⟨files, here, [], []⟩
        (inv.plan pass (scripts.map fun s => (s, files.read s.path here))).effects).1.files := by
  have hplan : World.planOf files here inv =
      .ok (inv.plan pass (scripts.map fun s => (s, files.read s.path here))) := by
    simp [World.planOf, run.prepares, run.collects, Except.mapError, Invocation.checkScripts, hne,
      run.into, bind, Except.bind, pure, Except.pure]
  simp only [runIn, run.reads, hplan]
  generalize inv.plan pass (scripts.map fun s => (s, files.read s.path here)) = plan
  obtain ⟨w, failure⟩ := World.applyAll ⟨files, here, [], []⟩ plan.effects
  cases failure with
  | some failure => rfl
  | none => cases plan.failure <;> rfl

/-- A run leaves the text of the last script of a relative path. -/
theorem read_last (run : SavingRun files here arguments inv out pass scripts)
    {before after : List ScriptFile} {s : ScriptFile} {text : Text}
    (hsplit : scripts = before ++ s :: after) (hmakes : Makes files here inv pass s text)
    (hlast : ∀ s' ∈ after, s'.relative = s.relative →
      ∀ text', ¬ Makes files here inv pass s' text') :
    (runIn files arguments here).2.files.read (Path.join out s.relative) here =
      .ok (Encoding.bytesOf text) := by
  have : Nonempty Pass.Outcome := ⟨.start []⟩
  choose! outcome houtcome using run.treats
  have hsaves := run.saves
  rw [run.files_eq (by simp [hsplit])]
  rw [inv.effects_plan houtcome] at hsaves ⊢
  obtain ⟨found, hfound, hok, rfl⟩ := hmakes
  obtain rfl := Except.ok.inj ((houtcome s (by simp [hsplit])).symm.trans hfound)
  have hrelative : ∀ s' ∈ scripts, ∃ names, Collect.Leads names ∧ s'.relative = below names :=
    fun s' hs' => Collect.relative_of_scripts run.proper run.collects hs'
  refine read_of_last run.emits run.into hrelative (Prod.ext rfl hsaves) hsplit hok ?_
  intro s' hs' hok' heq
  exact hlast s' hs' heq _ ⟨outcome s', houtcome s' (by simp [hsplit, hs']), hok', rfl⟩

/-- A run leaves the text of the last script of each relative path; so every
text is to be found just if scripts of one relative path have one text. -/
theorem saved_iff_agree (run : SavingRun files here arguments inv out pass scripts) :
    (∀ before s after text, scripts = before ++ s :: after → Makes files here inv pass s text →
      (∀ s' ∈ after, s'.relative = s.relative → ∀ text', ¬ Makes files here inv pass s' text') →
      (runIn files arguments here).2.files.read (Path.join out s.relative) here =
        .ok (Encoding.bytesOf text)) ∧
    ((∀ s ∈ scripts, ∀ text, Makes files here inv pass s text →
      (runIn files arguments here).2.files.read (Path.join out s.relative) here =
        .ok (Encoding.bytesOf text)) ↔
    ∀ s ∈ scripts, ∀ s' ∈ scripts, ∀ text text', s.relative = s'.relative →
      Makes files here inv pass s text → Makes files here inv pass s' text' → text = text') := by
  refine ⟨fun before s after text => run.read_last, ?_, ?_⟩
  · intro hsaved s hs s' hs' text text' heq hmakes hmakes'
    have hread := hsaved s hs text hmakes
    rw [heq, hsaved s' hs' text' hmakes'] at hread
    exact bytesOf_injective (Except.ok.inj hread).symm
  · intro hagree s hs text hmakes
    obtain ⟨before, last, after, hsplit, ⟨heq, text', hmakes'⟩, hafter⟩ :=
      exists_last
        (p := fun s' => s'.relative = s.relative ∧ ∃ text', Makes files here inv pass s' text')
        ⟨s, hs, rfl, text, hmakes⟩
    have hread := run.read_last hsplit hmakes' fun s' hs' heq' text'' hmakes'' =>
      hafter s' hs' ⟨heq'.trans heq, text'', hmakes''⟩
    rw [heq, hagree last (by simp [hsplit]) s hs text' text heq hmakes' hmakes] at hread
    exact hread

/-- Two scripts of one name in two folders. -/
def oneName : Tree ByteArray :=
  .folder [(['a'], .folder [("x.sql".toList, .file (Encoding.bytesOf "SELECT 1".toList))]),
    (['b'], .folder [("x.sql".toList, .file (Encoding.bytesOf "SELECT 2".toList))])]

def renameBoth : Invocation :=
  ⟨.renameIdentifiers, ["a/x.sql".toList, "b/x.sql".toList], [(.outDir, "out".toList)]⟩

def renameBothArguments : List Text :=
  ["rename-identifiers".toList, "a/x.sql".toList, "b/x.sql".toList, "--out-dir".toList,
    "out".toList]

def renameBothPass : Pass :=
  .renameIdentifiers fun name => (renameBoth.mapping .map name).getD ([] ++ name ++ [])

def scriptA : ScriptFile := ⟨"a/x.sql".toList, "x.sql".toList⟩

def scriptB : ScriptFile := ⟨"b/x.sql".toList, "x.sql".toList⟩

theorem saved_iff_agree_oneName :
    SavingRun oneName [] renameBothArguments renameBoth "out".toList renameBothPass
      [scriptA, scriptB] ∧
    Makes oneName [] renameBoth renameBothPass scriptA "SELECT 1".toList ∧
    Makes oneName [] renameBoth renameBothPass scriptB "SELECT 2".toList ∧
    (runIn oneName renameBothArguments).2.files.read "out/x.sql".toList =
      .ok (Encoding.bytesOf "SELECT 2".toList) ∧
    (runIn oneName renameBothArguments).2.files.read "out/x.sql".toList ≠
      .ok (Encoding.bytesOf "SELECT 1".toList) := by
  have hfolder : ∀ text : Text,
      Tree.Proper (.folder [("x.sql".toList, .file (Encoding.bytesOf text))]) := by
    intro text
    have hname : EntryName "x.sql".toList := by decide
    exact .folder (List.forall_mem_singleton.mpr hname) (List.forall_mem_singleton.mpr (.file _))
  have hproper : oneName.Proper :=
    .folder (by decide) (List.forall_mem_cons.mpr
      ⟨hfolder _, List.forall_mem_singleton.mpr (hfolder _)⟩)
  have hA : treat renameBothPass renameBoth.level scriptA (oneName.read scriptA.path) =
      .ok ⟨"SELECT 1".toList, [], [], []⟩ := Pass.eq_ok_of_toOption (by decide +kernel)
  have hB : treat renameBothPass renameBoth.level scriptB (oneName.read scriptB.path) =
      .ok ⟨"SELECT 2".toList, [], [], []⟩ := Pass.eq_ok_of_toOption (by decide +kernel)
  have run : SavingRun oneName [] renameBothArguments renameBoth "out".toList renameBothPass
      [scriptA, scriptB] := by
    refine ⟨hproper, by decide +kernel, by decide, by decide, rfl, by decide +kernel, ?_,
      by decide +kernel⟩
    exact List.forall_mem_cons.mpr ⟨⟨_, hA⟩, List.forall_mem_singleton.mpr ⟨_, hB⟩⟩
  have hmakesA : Makes oneName [] renameBoth renameBothPass scriptA "SELECT 1".toList :=
    ⟨_, hA, rfl, rfl⟩
  have hmakesB : Makes oneName [] renameBoth renameBothPass scriptB "SELECT 2".toList :=
    ⟨_, hB, rfl, rfl⟩
  obtain ⟨hlast, -⟩ := saved_iff_agree run
  have hread : (runIn oneName renameBothArguments).2.files.read "out/x.sql".toList =
      .ok (Encoding.bytesOf "SELECT 2".toList) := hlast [scriptA] scriptB [] _ rfl hmakesB (by simp)
  refine ⟨run, hmakesA, hmakesB, hread, fun h => ?_⟩
  rw [hread] at h
  exact absurd (bytesOf_injective (Except.ok.inj h)) (by decide)

end SavingRun

end Tsql
