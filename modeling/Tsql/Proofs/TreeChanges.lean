import Tsql.Proofs.TreePaths

/-!
# What changes to a tree keep

Making folders and writing files never takes a folder away, and a write
changes one file at most (`Keeps`). A path is followed through folders
only, so that once it leads somewhere it goes on leading there
(`Keeps.locateFrom`): where a path leads is fixed by the time it is
written to, whatever is written later.
-/

namespace Tsql

namespace Tree

variable {α : Type} {t t' : Tree α} {here : List Text}

/-! ## Putting an entry into a folder -/

theorem lookup_change (f : Tree α → Tree α) (entries : List (Text × Tree α)) (name key : Text) :
    (entries.map fun (n, e) => if n = name then (n, f e) else (n, e)).lookup key =
      if key = name then (entries.lookup key).map f else entries.lookup key := by
  induction entries with
  | nil => simp
  | cons entry more ih =>
      obtain ⟨n, e⟩ := entry
      rw [List.map_cons]
      by_cases hkey : key = n
      · subst hkey
        by_cases hname : key = name <;> simp [hname]
      · have hkey' : (key == n) = false := by simpa using hkey
        have hhead : (key == (if n = name then (n, f e) else (n, e)).1) = false := by
          split <;> exact hkey'
        rw [List.lookup_cons, hhead, ih, List.lookup_cons, hkey']

/-- The entries of a folder, the one of a name changed. -/
theorem exists_changed (f : Tree α → Tree α) (entries : List (Text × Tree α)) (name : Text) :
    ∃ changed,
      folder (entries.map fun (n, e) => if n = name then (n, f e) else (n, e)) = folder changed ∧
      (∀ key ≠ name, changed.lookup key = entries.lookup key) ∧
      ∀ entry, entries.lookup name = some entry → changed.lookup name = some (f entry) := by
  refine ⟨_, rfl, ?_, ?_⟩
  · intro key hkey
    rw [lookup_change, if_neg hkey]
  · intro entry hentry
    rw [lookup_change, if_pos rfl, hentry, Option.map_some]

/-- Putting an entry into a folder changes what lies under the first name
alone. -/
theorem put_folder (new : Tree α) (name : Text) (names : List Text)
    (entries : List (Text × Tree α)) :
    ∃ changed, put new (name :: names) (folder entries) = folder changed ∧
      (∀ key ≠ name, changed.lookup key = entries.lookup key) ∧
      (∀ entry, entries.lookup name = some entry →
        changed.lookup name = some (put new names entry)) ∧
      (entries.lookup name = none → names = [] → changed.lookup name = some new) := by
  cases names with
  | nil =>
      rw [put]
      split
      · rename_i hsome
        obtain ⟨changed, hchanged, hothers, hname⟩ := exists_changed (fun _ => new) entries name
        refine ⟨changed, hchanged, hothers, hname, fun hnone => ?_⟩
        rw [hnone] at hsome
        cases hsome
      · rename_i hnone
        rw [Option.not_isSome_iff_eq_none] at hnone
        refine ⟨_, rfl, ?_, ?_, ?_⟩
        · intro key hkey
          rw [List.lookup_append]
          simp [List.lookup_cons, beq_eq_false_iff_ne.mpr hkey]
        · intro entry hentry
          rw [hnone] at hentry
          cases hentry
        · intro _ _
          rw [List.lookup_append, hnone]
          simp
  | cons next names =>
      rw [put]
      · obtain ⟨changed, hchanged, hothers, hname⟩ :=
          exists_changed (put new (next :: names)) entries name
        exact ⟨changed, hchanged, hothers, hname, fun _ h => by cases h⟩
      · simp

/-- An entry that was put into a folder is there. -/
theorem get?_put (new : Tree α) {names : List Text}
    (h : names = [] ∨ t.IsFolderAt names.dropLast) : (put new names t).get? names = some new := by
  induction names generalizing t with
  | nil => rw [put, get?]
  | cons name names ih =>
      obtain ⟨above, habove⟩ := h.resolve_left (List.cons_ne_nil name names)
      obtain ⟨entries, rfl⟩ : ∃ entries, t = folder entries := by
        cases t with
        | folder entries => exact ⟨entries, rfl⟩
        | file content =>
            cases names with
            | nil => cases habove
            | cons next names => cases habove
      obtain ⟨changed, hchanged, -, hsome, hnone⟩ := put_folder new name names entries
      rw [hchanged, get?]
      cases hentry : entries.lookup name with
      | none =>
          cases names with
          | nil => rw [hnone hentry rfl, Option.bind_some, get?]
          | cons next names =>
              rw [List.dropLast_cons_cons, get?, hentry] at habove
              cases habove
      | some entry =>
          rw [hsome entry hentry, Option.bind_some]
          apply ih
          cases names with
          | nil => exact .inl rfl
          | cons next names =>
              rw [List.dropLast_cons_cons, get?, hentry] at habove
              exact .inr ⟨above, habove⟩

/-! ## What is kept -/

/-- Every folder stays, and every file but those under `changed` names. -/
structure Keeps (changed : List Text → Prop) (t t' : Tree α) : Prop where
  folders : ∀ names, t.IsFolderAt names → t'.IsFolderAt names
  files : ∀ names content, t.get? names = some (file content) → ¬ changed names →
    t'.get? names = some (file content)

namespace Keeps

variable {changed more : List Text → Prop} {t'' : Tree α}

theorem refl (changed : List Text → Prop) (t : Tree α) : Keeps changed t t :=
  ⟨fun _ h => h, fun _ _ h _ => h⟩

theorem trans (h : Keeps changed t t') (h' : Keeps changed t' t'') : Keeps changed t t'' :=
  ⟨fun names hfolder => h'.folders names (h.folders names hfolder),
    fun names content hfile hnot => h'.files names content (h.files names content hfile hnot) hnot⟩

theorem mono (h : Keeps changed t t') (hsub : ∀ names, changed names → more names) :
    Keeps more t t' :=
  ⟨h.folders, fun names content hfile hnot =>
    h.files names content hfile fun hchanged => hnot (hsub names hchanged)⟩

/-- A folder keeps what it has if the entry of one name does and the others
are as they were. -/
theorem of_lookup {entries entries' : List (Text × Tree α)} {name : Text} {names : List Text}
    (hothers : ∀ key ≠ name, entries'.lookup key = entries.lookup key)
    (hname : ∀ entry, entries.lookup name = some entry →
      ∃ entry', entries'.lookup name = some entry' ∧ Keeps (· = names) entry entry') :
    Keeps (· = name :: names) (folder entries) (folder entries') := by
  refine ⟨?_, ?_⟩
  · rintro (_ | ⟨key, rest⟩) ⟨inner, hinner⟩
    · exact ⟨entries', rfl⟩
    · rw [get?, Option.bind_eq_some_iff] at hinner
      obtain ⟨entry, hentry, hinner⟩ := hinner
      by_cases hkey : key = name
      · subst hkey
        obtain ⟨entry', hentry', hkeeps⟩ := hname entry hentry
        obtain ⟨inner', hinner'⟩ := hkeeps.folders rest ⟨inner, hinner⟩
        exact ⟨inner', by rw [get?, hentry', Option.bind_some, hinner']⟩
      · exact ⟨inner, by rw [get?, hothers key hkey, hentry, Option.bind_some, hinner]⟩
  · rintro (_ | ⟨key, rest⟩) content hfile hnot
    · cases hfile
    · rw [get?, Option.bind_eq_some_iff] at hfile
      obtain ⟨entry, hentry, hfile⟩ := hfile
      by_cases hkey : key = name
      · subst hkey
        obtain ⟨entry', hentry', hkeeps⟩ := hname entry hentry
        have hrest : ¬ rest = names := fun heq => hnot (by rw [heq])
        rw [get?, hentry', Option.bind_some]
        exact hkeeps.files rest content hfile hrest
      · rw [get?, hothers key hkey, hentry, Option.bind_some, hfile]

end Keeps

/-- Putting an entry where no folder is takes nothing else away. -/
theorem keeps_put (new : Tree α) {names : List Text} (h : ¬ t.IsFolderAt names) :
    Keeps (· = names) t (put new names t) := by
  induction names generalizing t with
  | nil =>
      cases t with
      | folder entries => exact absurd ⟨entries, rfl⟩ h
      | file content =>
          refine ⟨?_, ?_⟩
          · rintro (_ | ⟨name, names⟩) ⟨entries, hentries⟩ <;> cases hentries
          · rintro (_ | ⟨name, names⟩) content' hfile hnot
            · exact absurd rfl hnot
            · cases hfile
  | cons name names ih =>
      cases t with
      | file content =>
          rw [put]
          exact .refl ..
      | folder entries =>
          obtain ⟨changed, hchanged, hothers, hsome, -⟩ := put_folder new name names entries
          rw [hchanged]
          refine Keeps.of_lookup hothers fun entry hentry => ⟨_, hsome entry hentry, ih ?_⟩
          rintro ⟨inner, hinner⟩
          exact h ⟨inner, by rw [get?, hentry, Option.bind_some, hinner]⟩

/-! ## Paths that lead on -/

/-- A path leads on to where it led. -/
theorem Keeps.locateFrom {changed : List Text → Prop} (h : Keeps changed t t')
    {done parts names : List Text} (hlocate : t.locateFrom done parts = .ok names) :
    t'.locateFrom done parts = .ok names := by
  induction parts generalizing done with
  | nil => exact hlocate
  | cons part parts ih =>
      obtain ⟨hfolder, hrest⟩ := locateFrom_cons_eq_ok_iff.mp hlocate
      exact locateFrom_cons_eq_ok_iff.mpr ⟨h.folders _ hfolder, ih hrest⟩

theorem Keeps.locate {changed : List Text → Prop} (h : Keeps changed t t') {path : Text}
    {names : List Text} (hlocate : t.locate path here = .ok names) :
    t'.locate path here = .ok names := by
  rw [locate_eq_ok_iff] at hlocate ⊢
  exact hlocate.imp_right h.locateFrom

/-! ## Making folders and writing files -/

/-- A new folder takes nothing away. -/
theorem keeps_makeFolder {start parts : List Text} (h : t.makeFolder start parts = .ok t') :
    Keeps (fun _ => False) t t' := by
  obtain ⟨names, -, h⟩ := Pass.bind_eq_ok_iff.mp h
  cases hnone : t.get? names with
  | some entry =>
      rw [hnone] at h
      cases h
  | none =>
      rw [hnone] at h
      obtain rfl := Except.ok.inj h
      have hput : Keeps (· = names) t (put (folder []) names t) := by
        refine keeps_put _ fun ⟨entries, hentries⟩ => ?_
        rw [hnone] at hentries
        cases hentries
      refine ⟨hput.folders, fun names' content hfile _ => hput.files names' content hfile ?_⟩
      rintro rfl
      rw [hnone] at hfile
      cases hfile

theorem keeps_makeFoldersFrom {start back : List Text} (h : t.makeFoldersFrom start back = .ok t') :
    Keeps (fun _ => False) t t' := by
  induction back generalizing t' with
  | nil =>
      obtain rfl := Except.ok.inj h
      exact .refl ..
  | cons part above ih =>
      rw [makeFoldersFrom] at h
      split at h
      · rename_i made hmade
        obtain rfl := Except.ok.inj h
        exact keeps_makeFolder hmade
      · obtain ⟨made, hmade, h⟩ := Pass.bind_eq_ok_iff.mp h
        have habove := ih hmade
        split at h
        · rename_i made' hmade'
          obtain rfl := Except.ok.inj h
          exact habove.trans (keeps_makeFolder hmade')
        · split at h
          · obtain rfl := Except.ok.inj h
            exact habove
          · cases h
      · split at h
        · obtain rfl := Except.ok.inj h
          exact .refl ..
        · cases h

theorem write_eq_ok {path : Text} {content : α} (h : t.write path content here = .ok t') :
    ∃ names, t'.locate path here = .ok names ∧ t'.get? names = some (file content) ∧
      Keeps (· = names) t t' := by
  obtain ⟨names, hnames, h⟩ := Pass.bind_eq_ok_iff.mp h
  refine ⟨names, ?_⟩
  have hput : ¬ t.IsFolderAt names ∧ t' = put (file content) names t := by
    split at h
    · cases h
    · rename_i hfree
      exact ⟨fun ⟨entries, hentries⟩ => hfree entries hentries, (Except.ok.inj h).symm⟩
  obtain ⟨hfree, rfl⟩ := hput
  have hkeeps := keeps_put (file content) hfree
  exact ⟨hkeeps.locate hnames, get?_put _ (locate_parent hnames), hkeeps⟩

end Tree

end Tsql
