import Mathlib.Data.Char
import Mathlib.Data.List.Lex
import Mathlib.Data.List.Sort
import Tsql.Proofs.SavedScripts

/-!
# Scripts that are found

The search goes down a folder entry by entry. Here it is told from the
other end, by the names on the way to a file (`FoundBelow`): they lead to
the file, the last is that of a script, and the others are no folders of
build output. The search finds these and no others
(`mem_scriptsIn_iff`), and as no two entries of a folder have one name, it
comes by each once (`nodup_scriptsIn`).

So what an input stands for (`StandsFor`) is fixed by its members and their
order, and a search gives this for one input after the other, up to the
first that leads nowhere (`scripts_of_inputs`).
-/

namespace Tsql

open Tsql.Path (EntryName below)

/-! ## Entries of a folder -/

/-- A tree in which no two entries of a folder have one name. -/
inductive Tree.Distinct {α : Type} : Tree α → Prop where
  | file (content : α) : Distinct (.file content)
  | folder {entries : List (Text × Tree α)} (names : (entries.map Prod.fst).Nodup)
      (inside : ∀ entry ∈ entries, Distinct entry.2) : Distinct (.folder entries)

namespace Tree.Distinct

variable {α : Type} {t : Tree α} {entries : List (Text × Tree α)}

theorem of_folder (h : (Tree.folder entries).Distinct) :
    (entries.map Prod.fst).Nodup ∧ ∀ entry ∈ entries, entry.2.Distinct := by
  cases h with
  | folder names inside => exact ⟨names, inside⟩

theorem lookup_eq_some_iff (h : (Tree.folder entries).Distinct) {name : Text} {entry : Tree α} :
    entries.lookup name = some entry ↔ (name, entry) ∈ entries := by
  obtain ⟨hnames, -⟩ := h.of_folder
  constructor
  · intro hlookup
    obtain ⟨before, after, rfl, -⟩ := List.lookup_eq_some_iff.mp hlookup
    simp
  · intro hmem
    obtain ⟨before, after, rfl⟩ := List.append_of_mem hmem
    refine List.lookup_eq_some_iff.mpr ⟨before, after, rfl, fun other hother => ?_⟩
    rw [List.map_append, List.map_cons, List.nodup_append] at hnames
    have hne := hnames.2.2 other.1 (List.mem_map_of_mem hother) name List.mem_cons_self
    simpa using Ne.symm hne

theorem get? (h : t.Distinct) {names : List Text} {entry : Tree α}
    (hentry : t.get? names = some entry) : entry.Distinct := by
  induction names generalizing t with
  | nil =>
      obtain rfl := Option.some.inj hentry
      exact h
  | cons name names ih =>
      cases t with
      | file content => cases hentry
      | folder entries =>
          rw [Tree.get?, Option.bind_eq_some_iff] at hentry
          obtain ⟨inner, hinner, hentry⟩ := hentry
          exact ih (h.of_folder.2 _ (h.lookup_eq_some_iff.mp hinner)) hentry

end Tree.Distinct

/-! ## Names of scripts -/

theorem Text.eq_nil_of_split {sep : Char} {t : Text} (h : Text.split sep t = [[]]) : t = [] := by
  rw [← Text.joinWith_split sep t, h]
  rfl

theorem Path.extension?_append (stem : Text) {ext : Text} (hext : '.' ∉ ext) :
    Path.extension? (stem ++ '.' :: ext) = if stem = [] then none else some ext := by
  have hpieces : (Text.split '.' (stem ++ '.' :: ext)).reverse =
      ext :: (Text.split '.' stem).reverse := by
    rw [Text.split_append, Text.split_of_notMem hext, List.reverse_append]
    rfl
  rw [Path.extension?, hpieces]
  cases hback : (Text.split '.' stem).reverse with
  | nil => exact absurd (List.reverse_eq_nil_iff.mp hback) (Text.split_ne_nil '.' stem)
  | cons piece more =>
      have hnothing : piece = [] ∧ more = [] ↔ stem = [] := by
        constructor
        · rintro ⟨rfl, rfl⟩
          exact Text.eq_nil_of_split (List.reverse_eq_iff.mp hback)
        · rintro rfl
          exact List.cons.inj hback.symm
      simp only [hnothing]

/-- What follows the last dot of a name, if something stands before that
dot. -/
theorem Path.extension?_eq_some_iff {name ext : Text} :
    Path.extension? name = some ext ↔
      ∃ stem, name = stem ++ '.' :: ext ∧ stem ≠ [] ∧ '.' ∉ ext := by
  constructor
  · intro h
    by_cases hdot : '.' ∈ name
    · obtain ⟨back, front, hback, hlast⟩ :=
        List.eq_append_cons_of_mem (List.mem_reverse.mpr hdot)
      have hname : name = front.reverse ++ '.' :: back.reverse := by
        rw [← List.reverse_reverse name, hback]
        simp
      have hext : '.' ∉ back.reverse := fun hmem => hlast (List.mem_reverse.mp hmem)
      rw [hname, Path.extension?_append _ hext] at h
      split at h
      · cases h
      · rename_i hstem
        obtain rfl := Option.some.inj h
        exact ⟨front.reverse, hname, hstem, hext⟩
    · rw [Path.extension?, Text.split_of_notMem hdot] at h
      cases h
  · rintro ⟨stem, rfl, hstem, hext⟩
    rw [Path.extension?_append stem hext, if_neg hstem]

namespace Collect

/-- A name that ends in the letters `sql` behind a dot, in any case, and
has something before the dot. -/
def IsScript (name : Text) : Prop :=
  ∃ stem ext, name = stem ++ '.' :: ext ∧ stem ≠ [] ∧ Text.upper ext = "SQL".toList

theorem isScriptName_iff {name : Text} : isScriptName name = true ↔ IsScript name := by
  rw [isScriptName, Option.any_eq_true]
  constructor
  · rintro ⟨ext, hext, hsame⟩
    obtain ⟨stem, rfl, hstem, -⟩ := Path.extension?_eq_some_iff.mp hext
    exact ⟨stem, ext, rfl, hstem, eq_of_beq hsame⟩
  · rintro ⟨stem, ext, rfl, hstem, hupper⟩
    have hdot : '.' ∉ ext := by
      intro hmem
      have hmark : Char.toUpper '.' ∈ Text.upper ext := List.mem_map_of_mem hmem
      rw [hupper] at hmark
      exact absurd hmark (by decide)
    refine ⟨ext, Path.extension?_eq_some_iff.mpr ⟨stem, rfl, hstem, hdot⟩, ?_⟩
    rw [Text.sameFold, hupper]
    rfl

/-- A folder of this name holds build output. -/
def HoldsOutput (name : Text) : Prop := name = "bin".toList ∨ name = "obj".toList

theorem isBuildOutput_iff {name : Text} : isBuildOutput name = true ↔ HoldsOutput name := by
  simp [isBuildOutput, HoldsOutput]

/-! ## What the search finds -/

variable {α : Type} {entries : List (Text × Tree α)}

/-- Names that lead to a script through no folder of build output. -/
structure FoundBelow (root : Tree α) (names : List Text) : Prop where
  file : ∃ content, root.get? names = some (.file content)
  script : ∃ name, names.getLast? = some name ∧ IsScript name
  outside : ∀ folder ∈ names.dropLast, ¬ HoldsOutput folder

/-- The first of the names is an entry: a script, or a folder in which the
others lead to one. -/
theorem foundBelow_cons {name : Text} {more : List Text} :
    FoundBelow (.folder entries) (name :: more) ↔ ∃ entry, entries.lookup name = some entry ∧
      ((∃ content, entry = .file content) ∧ more = [] ∧ IsScript name ∨
        ∃ inner, entry = .folder inner ∧ ¬ HoldsOutput name ∧
          FoundBelow (.folder inner) more) := by
  constructor
  · rintro ⟨⟨content, hfile⟩, hscript, houtside⟩
    rw [Tree.get?, Option.bind_eq_some_iff] at hfile
    obtain ⟨entry, hentry, hfile⟩ := hfile
    refine ⟨entry, hentry, ?_⟩
    cases more with
    | nil =>
        obtain rfl := Option.some.inj hfile
        obtain ⟨last, hlast, hscript⟩ := hscript
        obtain rfl := Option.some.inj hlast
        exact Or.inl ⟨⟨content, rfl⟩, rfl, hscript⟩
    | cons next more =>
        cases entry with
        | file content' => cases hfile
        | folder inner =>
            rw [List.getLast?_cons_cons] at hscript
            rw [List.dropLast_cons_cons, List.forall_mem_cons] at houtside
            exact Or.inr ⟨inner, rfl, houtside.1, ⟨content, hfile⟩, hscript, houtside.2⟩
  · rintro ⟨entry, hentry, ⟨⟨content, rfl⟩, rfl, hscript⟩ | ⟨inner, rfl, hname, hbelow⟩⟩
    · refine ⟨⟨content, ?_⟩, ⟨name, rfl, hscript⟩, by simp⟩
      rw [Tree.get?, hentry]
      rfl
    · obtain ⟨⟨content, hfile⟩, hscript, houtside⟩ := hbelow
      cases more with
      | nil => cases hfile
      | cons next more =>
          refine ⟨⟨content, ?_⟩, ?_, ?_⟩
          · rw [Tree.get?, hentry]
            exact hfile
          · rwa [List.getLast?_cons_cons]
          · rw [List.dropLast_cons_cons, List.forall_mem_cons]
            exact ⟨hname, houtside⟩

theorem mem_scriptsIn {names : List Text} :
    names ∈ scriptsIn entries ↔ ∃ entry ∈ entries, names ∈ scriptsAt entry.1 entry.2 := by
  induction entries with
  | nil => simp [scriptsIn]
  | cons entry more ih =>
      obtain ⟨name, tree⟩ := entry
      rw [scriptsIn, List.mem_append, ih]
      simp

theorem mem_scriptsAt {name : Text} {entry : Tree α} {names : List Text} :
    names ∈ scriptsAt name entry ↔ ∃ more, names = name :: more ∧
      ((∃ content, entry = .file content) ∧ more = [] ∧ IsScript name ∨
        ∃ inner, entry = .folder inner ∧ ¬ HoldsOutput name ∧ more ∈ scriptsIn inner) := by
  cases entry with
  | file content =>
      rw [scriptsAt, ← isScriptName_iff]
      split
      · rename_i hname
        simp [hname]
      · rename_i hname
        simp [hname]
  | folder inner =>
      rw [scriptsAt, ← isBuildOutput_iff]
      split
      · rename_i hname
        simp [hname]
      · rename_i hname
        simp [hname, and_comm, eq_comm]

/-- The search finds the names that lead to a script, and no others. -/
theorem mem_scriptsIn_iff (h : (Tree.folder entries).Distinct) {names : List Text} :
    names ∈ scriptsIn entries ↔ FoundBelow (.folder entries) names := by
  induction names generalizing entries with
  | nil =>
      refine iff_of_false ?_ ?_
      · rw [mem_scriptsIn]
        rintro ⟨entry, -, hmem⟩
        obtain ⟨more, hmore, -⟩ := mem_scriptsAt.mp hmem
        cases hmore
      · rintro ⟨⟨content, hfile⟩, -, -⟩
        cases hfile
  | cons name more ih =>
      rw [mem_scriptsIn, foundBelow_cons]
      constructor
      · rintro ⟨⟨key, entry⟩, hentry, hmem⟩
        obtain ⟨more', hmore, hcases⟩ := mem_scriptsAt.mp hmem
        obtain ⟨rfl, rfl⟩ := List.cons.inj hmore
        refine ⟨entry, h.lookup_eq_some_iff.mpr hentry, hcases.imp_right ?_⟩
        rintro ⟨inner, rfl, hname, hinner⟩
        exact ⟨inner, rfl, hname, (ih (h.of_folder.2 _ hentry)).mp hinner⟩
      · rintro ⟨entry, hlookup, hcases⟩
        have hentry := h.lookup_eq_some_iff.mp hlookup
        refine ⟨(name, entry), hentry, mem_scriptsAt.mpr ⟨more, rfl, hcases.imp_right ?_⟩⟩
        rintro ⟨inner, rfl, hname, hinner⟩
        exact ⟨inner, rfl, hname, (ih (h.of_folder.2 _ hentry)).mpr hinner⟩

mutual

/-- Entries of different names lead to different scripts. -/
theorem nodup_scriptsIn (entries : List (Text × Tree α)) (h : (Tree.folder entries).Distinct) :
    (scriptsIn entries).Nodup :=
  match entries with
  | [] => List.nodup_nil
  | (name, entry) :: more => by
      obtain ⟨hnames, hinside⟩ := h.of_folder
      obtain ⟨hname, hmore⟩ := List.nodup_cons.mp hnames
      rw [scriptsIn, List.nodup_append]
      refine ⟨nodup_scriptsAt name entry (hinside _ List.mem_cons_self),
        nodup_scriptsIn more (.folder hmore fun e he => hinside e (List.mem_cons_of_mem _ he)), ?_⟩
      rintro names hhere names' hthere rfl
      obtain ⟨_, rfl, -⟩ := mem_scriptsAt.mp hhere
      obtain ⟨other, hother, hmem⟩ := mem_scriptsIn.mp hthere
      obtain ⟨_, heq, -⟩ := mem_scriptsAt.mp hmem
      have hkey : other.1 ∈ more.map Prod.fst := List.mem_map_of_mem hother
      rw [← (List.cons.inj heq).1] at hkey
      exact hname hkey

theorem nodup_scriptsAt (name : Text) (entry : Tree α) (h : entry.Distinct) :
    (scriptsAt name entry).Nodup :=
  match entry with
  | .file content => by
      rw [scriptsAt]
      split
      · exact List.nodup_singleton _
      · exact List.nodup_nil
  | .folder entries => by
      rw [scriptsAt]
      split
      · exact List.nodup_nil
      · exact (nodup_scriptsIn entries h).map fun _ _ heq => (List.cons.inj heq).2

end

/-! ## The order of what is found -/

theorem pathLe_iff {a b : List Text} : pathLe a b = true ↔ ¬ b < a := by
  rw [pathLe, Bool.not_eq_true', decide_eq_false_iff_not]

/-- Without repetitions, sorting puts each path before the ones above
it. -/
theorem pairwise_mergeSort {found : List (List Text)} (h : found.Nodup) :
    (found.mergeSort pathLe).Pairwise (· < ·) := by
  have hordered : (found.mergeSort pathLe).Pairwise fun a b => pathLe a b = true := by
    refine List.pairwise_mergeSort ?_ ?_ found
    · intro a b c hab hbc
      rw [pathLe_iff, not_lt] at hab hbc ⊢
      exact hab.trans hbc
    · intro a b
      rw [Bool.or_eq_true, pathLe_iff, pathLe_iff, not_lt, not_lt]
      exact le_total a b
  have hdistinct : (found.mergeSort pathLe).Nodup :=
    (List.mergeSort_perm found pathLe).nodup_iff.mpr h
  refine (hordered.and hdistinct).imp ?_
  rintro a b ⟨hle, hne⟩
  exact lt_of_le_of_ne (not_lt.mp (pathLe_iff.mp hle)) hne

/-- A script that names below an input lead to. -/
def scriptBelow (input : Text) (names : List Text) : ScriptFile :=
  ⟨Path.join input (below names), below names⟩

/-- Paths are ordered part by part. -/
def Before (s s' : ScriptFile) : Prop := Path.parts s.path < Path.parts s'.path

theorem before_scriptBelow {input : Text} {names names' : List Text} (h : Leads names)
    (h' : Leads names') (hlt : names < names') :
    Before (scriptBelow input names) (scriptBelow input names') := by
  rw [Before, scriptBelow, scriptBelow, Path.parts_join input h.nonempty h.proper,
    Path.parts_join input h'.nonempty h'.proper]
  exact List.append_left_lt hlt

/-! ## Inputs -/

/-- The scripts that an input stands for in a working folder. -/
inductive StandsFor (files : Tree α) (here : List Text) (input : Text) :
    List ScriptFile → Prop where
  /-- A file stands for itself, whatever its name. -/
  | file {content : α} {name : Text} (leads : files.find input here = .ok (.file content))
      (named : Path.fileName? input = some name) : StandsFor files here input [⟨input, name⟩]
  /-- A folder stands for the scripts below it, if it holds no build output
  by its own name. -/
  | folder {entries : List (Text × Tree α)} {found : List ScriptFile}
      (leads : files.find input here = .ok (.folder entries))
      (members : ∀ s, s ∈ found ↔ (∀ name, Path.fileName? input = some name → ¬ HoldsOutput name) ∧
        ∃ names, FoundBelow (.folder entries) names ∧ s = scriptBelow input names)
      (ordered : found.Pairwise Before) : StandsFor files here input found

theorem standsFor_fromInput {files entry : Tree α} {here : List Text} (hproper : files.Proper)
    (hdistinct : files.Distinct) {input : Text} (hfind : files.find input here = .ok entry) :
    StandsFor files here input (fromInput input entry) := by
  obtain ⟨place, -, hentry⟩ := Tree.find_eq_ok_iff.mp hfind
  cases entry with
  | file content =>
      obtain ⟨name, hname, -⟩ := Tree.fileName?_of_find hfind
      rw [fromInput, hname]
      exact .file hfind hname
  | folder entries =>
      have hnames : ∀ names ∈ scriptsIn entries, Leads names := by
        intro names hmem
        cases hproper.get? hentry with
        | folder hnames hinside => exact leads_of_scriptsIn entries hnames hinside hmem
      have houtput : (Path.fileName? input).any isBuildOutput = true ↔
          ∃ name, Path.fileName? input = some name ∧ HoldsOutput name := by
        simp [Option.any_eq_true, isBuildOutput_iff]
      rw [fromInput]
      split
      · rename_i houtput'
        obtain ⟨name, hname, houts⟩ := houtput.mp houtput'
        refine .folder hfind (fun s => iff_of_false List.not_mem_nil ?_) List.Pairwise.nil
        rintro ⟨hnone, -⟩
        exact hnone name hname houts
      · rename_i hnone
        have hown : ∀ name, Path.fileName? input = some name → ¬ HoldsOutput name :=
          fun name hname houts => hnone (houtput.mpr ⟨name, hname, houts⟩)
        refine .folder hfind (fun s => ?_) ?_
        · rw [List.mem_map]
          simp only [List.mem_mergeSort, mem_scriptsIn_iff (hdistinct.get? hentry)]
          constructor
          · rintro ⟨names, hbelow, rfl⟩
            exact ⟨hown, names, hbelow, rfl⟩
          · rintro ⟨-, names, hbelow, rfl⟩
            exact ⟨names, hbelow, rfl⟩
        · rw [List.pairwise_map]
          have hordered := pairwise_mergeSort (nodup_scriptsIn entries (hdistinct.get? hentry))
          refine hordered.imp_of_mem fun {a b} ha hb hlt => ?_
          exact before_scriptBelow (hnames a (List.mem_mergeSort.mp ha))
            (hnames b (List.mem_mergeSort.mp hb)) hlt

instance : Std.Irrefl Before := ⟨fun s => List.lt_irrefl (Path.parts s.path)⟩

instance : Std.Antisymm Before :=
  ⟨fun _ _ h h' => absurd h' (List.lt_asymm h)⟩

/-- An input stands for one list of scripts only. -/
theorem StandsFor.unique {files : Tree α} {here : List Text} {input : Text}
    {found found' : List ScriptFile} (h : StandsFor files here input found)
    (h' : StandsFor files here input found') : found = found' := by
  cases h with
  | file leads named =>
      cases h' with
      | file leads' named' => rw [Option.some.inj (named.symm.trans named')]
      | folder leads' => cases leads.symm.trans leads'
  | folder leads members ordered =>
      cases h' with
      | file leads' => cases leads.symm.trans leads'
      | folder leads' members' ordered' =>
          obtain rfl := Tree.folder.inj (Except.ok.inj (leads.symm.trans leads'))
          exact ordered.eq_of_mem_iff ordered' fun s => (members s).trans (members' s).symm

/-! ## Searches -/

section Searches

variable {files : Tree α} {here : List Text} {input : Text}

/-- An input is neither a file nor a folder. -/
def LeadsNowhere (files : Tree α) (here : List Text) (input : Text) : Prop :=
  ∀ entry, files.find input here ≠ .ok entry

/-- The first of the inputs that are neither. -/
def FirstNowhere (files : Tree α) (here inputs : List Text) (input : Text) : Prop :=
  ∃ before after, inputs = before ++ input :: after ∧
    (∀ earlier ∈ before, ¬ LeadsNowhere files here earlier) ∧ LeadsNowhere files here input

theorem firstNowhere_cons_of_nowhere (h : LeadsNowhere files here input) {more : List Text}
    {first : Text} : FirstNowhere files here (input :: more) first ↔ first = input := by
  constructor
  · rintro ⟨before, after, heq, hbefore, -⟩
    cases before with
    | nil => exact (List.cons.inj heq).1.symm
    | cons earlier before =>
        rw [← (List.cons.inj heq).1] at hbefore
        exact absurd h (hbefore input List.mem_cons_self)
  · rintro rfl
    exact ⟨[], more, rfl, by simp, h⟩

theorem firstNowhere_cons_of_some {entry : Tree α} (h : files.find input here = .ok entry)
    {more : List Text} {first : Text} :
    FirstNowhere files here (input :: more) first ↔ FirstNowhere files here more first := by
  have hleads : ¬ LeadsNowhere files here input := fun hnone => hnone entry h
  constructor
  · rintro ⟨before, after, heq, hbefore, hfirst⟩
    cases before with
    | nil =>
        rw [(List.cons.inj heq).1] at hleads
        exact absurd hfirst hleads
    | cons earlier before =>
        exact ⟨before, after, (List.cons.inj heq).2,
          fun e he => hbefore e (List.mem_cons_of_mem _ he), hfirst⟩
  · rintro ⟨before, after, rfl, hbefore, hfirst⟩
    exact ⟨input :: before, after, rfl, List.forall_mem_cons.mpr ⟨hleads, hbefore⟩, hfirst⟩

theorem leadsNowhere_of_error {error : FileError} (h : files.find input here = .error error) :
    LeadsNowhere files here input := by
  intro entry hentry
  rw [h] at hentry
  cases hentry

theorem StandsFor.not_leadsNowhere {found : List ScriptFile}
    (h : StandsFor files here input found) : ¬ LeadsNowhere files here input := by
  intro hnowhere
  cases h with
  | file leads => exact hnowhere _ leads
  | folder leads => exact hnowhere _ leads

theorem scripts_cons_of_error {error : FileError} (h : files.find input here = .error error)
    (more : List Text) :
    scripts (fun path => (files.find path here).toOption) (input :: more) =
      .error ⟨input, .noInput⟩ := by
  rw [scripts, h]
  rfl

theorem scripts_cons_of_ok {entry : Tree α} (h : files.find input here = .ok entry)
    (more : List Text) :
    scripts (fun path => (files.find path here).toOption) (input :: more) =
      (scripts (fun path => (files.find path here).toOption) more).map
        (fromInput input entry ++ ·) := by
  rw [scripts, h]
  cases scripts (fun path => (files.find path here).toOption) more with
  | ok rest => rfl
  | error error => rfl

/-- A search fails at the first input that leads nowhere. -/
theorem scripts_eq_error_iff {inputs : List Text} {e : ReadError} :
    scripts (fun path => (files.find path here).toOption) inputs = .error e ↔
      ∃ input, FirstNowhere files here inputs input ∧ e = ⟨input, .noInput⟩ := by
  induction inputs with
  | nil =>
      rw [scripts]
      refine iff_of_false (by simp) ?_
      rintro ⟨input, ⟨before, after, heq, -⟩, -⟩
      simp at heq
  | cons input more ih =>
      cases hfind : files.find input here with
      | error error =>
          rw [scripts_cons_of_error hfind]
          simp [firstNowhere_cons_of_nowhere (leadsNowhere_of_error hfind), eq_comm]
      | ok entry =>
          simp only [firstNowhere_cons_of_some hfind]
          rw [← ih, scripts_cons_of_ok hfind]
          cases scripts (fun path => (files.find path here).toOption) more with
          | ok rest => simp [Except.map]
          | error error => simp [Except.map]

/-- A search that does not fail gives what the inputs stand for, in their
order. -/
theorem scripts_eq_ok_iff (hproper : files.Proper) (hdistinct : files.Distinct)
    {inputs : List Text} {found : List ScriptFile} :
    scripts (fun path => (files.find path here).toOption) inputs = .ok found ↔
      ∃ groups, List.Forall₂ (StandsFor files here) inputs groups ∧ found = groups.flatten := by
  induction inputs generalizing found with
  | nil =>
      rw [scripts]
      simp [eq_comm]
  | cons input more ih =>
      cases hfind : files.find input here with
      | error error =>
          rw [scripts_cons_of_error hfind]
          refine iff_of_false (by simp) ?_
          rintro ⟨groups, hgroups, -⟩
          cases hgroups with
          | cons hinput _ => exact hinput.not_leadsNowhere (leadsNowhere_of_error hfind)
      | ok entry =>
          have hstands := standsFor_fromInput hproper hdistinct hfind
          rw [scripts_cons_of_ok hfind]
          constructor
          · intro h
            cases hmore : scripts (fun path => (files.find path here).toOption) more with
            | error error =>
                rw [hmore] at h
                cases h
            | ok rest =>
                obtain ⟨groups, hgroups, rfl⟩ := ih.mp hmore
                rw [hmore] at h
                exact ⟨_ :: groups, .cons hstands hgroups, (Except.ok.inj h).symm⟩
          · rintro ⟨groups, hgroups, rfl⟩
            cases hgroups with
            | @cons _ group _ groups hinput hmore =>
                rw [ih.mpr ⟨groups, hmore, rfl⟩, List.flatten_cons, hinput.unique hstands]
                rfl

/-- Whatever the inputs and the working folder, a search in a tree of
folders and files fails just if an input is neither a file nor a folder, and
names the first of these. Otherwise it gives, input by input, the file itself
under its name or the scripts below the folder, each once and in the order
of their paths. -/
theorem scripts_of_inputs (hproper : files.Proper) (hdistinct : files.Distinct)
    (inputs : List Text) :
    ((∃ e, scripts (fun path => (files.find path here).toOption) inputs = .error e) ↔
      ∃ input ∈ inputs, LeadsNowhere files here input) ∧
    (∀ e, scripts (fun path => (files.find path here).toOption) inputs = .error e ↔
      ∃ input, FirstNowhere files here inputs input ∧ e = ⟨input, .noInput⟩) ∧
    (∀ found, scripts (fun path => (files.find path here).toOption) inputs = .ok found ↔
      ∃ groups, List.Forall₂ (StandsFor files here) inputs groups ∧ found = groups.flatten) := by
  refine ⟨?_, fun e => scripts_eq_error_iff, fun found => scripts_eq_ok_iff hproper hdistinct⟩
  constructor
  · rintro ⟨e, he⟩
    obtain ⟨input, ⟨before, after, rfl, -, hinput⟩, -⟩ := scripts_eq_error_iff.mp he
    exact ⟨input, by simp, hinput⟩
  · rintro ⟨input, hmem, hinput⟩
    cases hresult : scripts (fun path => (files.find path here).toOption) inputs with
    | error e => exact ⟨e, rfl⟩
    | ok found =>
        obtain ⟨groups, hgroups, -⟩ := (scripts_eq_ok_iff hproper hdistinct).mp hresult
        obtain ⟨i, hi, rfl⟩ := List.getElem_of_mem hmem
        have hstands := hgroups.get hi (hgroups.length_eq ▸ hi)
        exact absurd hinput hstands.not_leadsNowhere

end Searches

/-- Names that sort in another order than their paths, scripts under build
output, and a folder with the name of a script. The folder is searched from
within, by a path from above and by one from the root. -/
def scatteredScripts : Tree Unit :=
  .folder [("src".toList, .folder
    [("a b.sql".toList, .file ()), ("notes.txt".toList, .file ()),
      ("a".toList, .folder [("z.SQL".toList, .file ()),
        ("bin".toList, .folder [("skip.sql".toList, .file ())])]),
      ("c.sql".toList, .folder [(".sql".toList, .file ())])])]

theorem scripts_of_inputs_scattered :
    scatteredScripts.Proper ∧ scatteredScripts.Distinct ∧
    (∃ groups, List.Forall₂ (StandsFor scatteredScripts ["src".toList])
        ["../src".toList, "/src/notes.txt".toList] groups ∧
      groups.flatten = [scriptBelow "../src".toList ["a".toList, "z.SQL".toList],
        scriptBelow "../src".toList ["a b.sql".toList],
        ⟨"/src/notes.txt".toList, "notes.txt".toList⟩]) ∧
    scripts (fun path => (scatteredScripts.find path ["src".toList]).toOption)
      ["a".toList, "src".toList, "bin".toList] = .error ⟨"src".toList, .noInput⟩ := by
  have hproper : scatteredScripts.Proper := by
    refine .folder (by decide) (List.forall_mem_singleton.mpr (.folder (by decide) ?_))
    refine List.forall_mem_cons.mpr ⟨.file _, List.forall_mem_cons.mpr ⟨.file _, ?_⟩⟩
    refine List.forall_mem_cons.mpr ⟨.folder (by decide) ?_, List.forall_mem_singleton.mpr ?_⟩
    · refine List.forall_mem_cons.mpr ⟨.file _, List.forall_mem_singleton.mpr ?_⟩
      exact .folder (by decide) (List.forall_mem_singleton.mpr (.file _))
    · exact .folder (by decide) (List.forall_mem_singleton.mpr (.file _))
  have hdistinct : scatteredScripts.Distinct := by
    refine .folder (by decide) (List.forall_mem_singleton.mpr (.folder (by decide) ?_))
    refine List.forall_mem_cons.mpr ⟨.file _, List.forall_mem_cons.mpr ⟨.file _, ?_⟩⟩
    refine List.forall_mem_cons.mpr ⟨.folder (by decide) ?_, List.forall_mem_singleton.mpr ?_⟩
    · refine List.forall_mem_cons.mpr ⟨.file _, List.forall_mem_singleton.mpr ?_⟩
      exact .folder (by decide) (List.forall_mem_singleton.mpr (.file _))
    · exact .folder (by decide) (List.forall_mem_singleton.mpr (.file _))
  have hsearch : scripts (fun path => (scatteredScripts.find path ["src".toList]).toOption)
      ["../src".toList, "/src/notes.txt".toList] =
      .ok (([["a b.sql".toList], ["a".toList, "z.SQL".toList]].mergeSort pathLe).map
          (scriptBelow "../src".toList) ++
        [⟨"/src/notes.txt".toList, "notes.txt".toList⟩]) := rfl
  have hsorted : [["a b.sql".toList], ["a".toList, "z.SQL".toList]].mergeSort pathLe =
      [["a".toList, "z.SQL".toList], ["a b.sql".toList]] :=
    ((List.mergeSort_perm _ _).trans (.swap _ _ _)).eq_of_pairwise'
      (pairwise_mergeSort (by decide)) (by decide)
  rw [hsorted] at hsearch
  have hfirst : FirstNowhere scatteredScripts ["src".toList]
      ["a".toList, "src".toList, "bin".toList] "src".toList := by
    refine ⟨["a".toList], ["bin".toList], rfl, List.forall_mem_singleton.mpr ?_, ?_⟩
    · exact fun h => h _ rfl
    · exact leadsNowhere_of_error rfl
  obtain ⟨-, -, hgroups⟩ := scripts_of_inputs hproper hdistinct
    ["../src".toList, "/src/notes.txt".toList]
  obtain ⟨-, herror, -⟩ := scripts_of_inputs hproper hdistinct
    ["a".toList, "src".toList, "bin".toList]
  obtain ⟨groups, hstands, hflat⟩ := (hgroups _).mp hsearch
  exact ⟨hproper, hdistinct, ⟨groups, hstands, hflat.symm⟩, (herror _).mpr ⟨_, hfirst, rfl⟩⟩

end Collect

end Tsql
