import Tsql.Proofs.PathParts
import Tsql.Proofs.Trace
import Tsql.Tree

/-!
# Where paths lead

A path is followed part by part, and every part but the last leads through
a folder (`locateFrom_cons_eq_ok_iff`); so what it leads to lies in a folder,
unless it is the root (`locate_parent`). Paths put together from other names
behind one folder lead elsewhere (`locate_join_inj`). Dots lead to folders
only: a path that leads to a file ends in the name of that file
(`fileName?_of_find`).
-/

namespace Tsql

namespace Tree

open Tsql.Path (EntryName below)

variable {α : Type} {t : Tree α} {here : List Text}

/-! ## Entries by name -/

/-- A folder lies under these names. -/
def IsFolderAt (t : Tree α) (names : List Text) : Prop :=
  ∃ entries, t.get? names = some (folder entries)

theorem get?_append (t : Tree α) (names more : List Text) :
    t.get? (names ++ more) = (t.get? names).bind (·.get? more) := by
  induction names generalizing t with
  | nil => rfl
  | cons name names ih =>
      cases t with
      | file content => rfl
      | folder entries =>
          rw [List.cons_append, get?, get?]
          cases entries.lookup name with
          | none => rfl
          | some entry => exact ih entry

/-- What lies under names lies in folders. -/
theorem isFolderAt_of_append {names more : List Text} {entry : Tree α} (hmore : more ≠ [])
    (h : t.get? (names ++ more) = some entry) : t.IsFolderAt names := by
  rw [get?_append, Option.bind_eq_some_iff] at h
  obtain ⟨above, habove, hentry⟩ := h
  cases above with
  | folder entries => exact ⟨entries, habove⟩
  | file content =>
      cases more with
      | nil => exact absurd rfl hmore
      | cons name names => cases hentry

/-- A folder lies in a folder, unless it is the root. -/
theorem IsFolderAt.above {done : List Text} (h : t.IsFolderAt done.reverse) :
    done = [] ∨ t.IsFolderAt done.tail.reverse := by
  cases done with
  | nil => exact .inl rfl
  | cons name above =>
      obtain ⟨entries, hentries⟩ := h
      rw [List.reverse_cons] at hentries
      exact .inr (isFolderAt_of_append (by simp) hentries)

/-! ## Following a path -/

/-- Dots lead from folders to folders. -/
theorem isFolderAt_follow {done : List Text} (h : t.IsFolderAt done.reverse) (part : Text) :
    t.IsFolderAt (follow done part).reverse ∨
      Path.isDot part = false ∧ Path.isDotDot part = false ∧ follow done part = part :: done := by
  rw [follow]
  split
  · exact .inl h
  · rename_i hdot
    split
    · rcases h.above with rfl | habove
      · exact .inl h
      · exact .inl habove
    · rename_i hdotDot
      exact .inr ⟨by simpa using hdot, by simpa using hdotDot, rfl⟩

theorem follow_of_entryName {name : Text} (h : EntryName name) (done : List Text) :
    follow done name = name :: done := by
  simp [follow, h.noDot, h.noDotDot]

theorem locateFrom_cons_eq_ok_iff {done parts names : List Text} {part : Text} :
    t.locateFrom done (part :: parts) = .ok names ↔
      t.IsFolderAt done.reverse ∧ t.locateFrom (follow done part) parts = .ok names := by
  rw [locateFrom.eq_def t done (part :: parts), IsFolderAt]
  simp only
  split
  · rename_i h
    simp [h]
  · rename_i h
    simp [h]
  · rename_i entries h
    simp [h]

theorem locateFrom_append_eq_ok_iff {done parts more names : List Text} :
    t.locateFrom done (parts ++ more) = .ok names ↔
      ∃ passed, t.locateFrom done parts = .ok passed ∧
        t.locateFrom passed.reverse more = .ok names := by
  induction parts generalizing done with
  | nil =>
      rw [List.nil_append, locateFrom]
      simp
  | cons part parts ih =>
      simp only [List.cons_append, locateFrom_cons_eq_ok_iff, ih]
      constructor
      · rintro ⟨hfolder, passed, hpassed, hnames⟩
        exact ⟨passed, ⟨hfolder, hpassed⟩, hnames⟩
      · rintro ⟨passed, ⟨hfolder, hpassed⟩, hnames⟩
        exact ⟨hfolder, passed, hpassed, hnames⟩

theorem eq_of_locateFrom {done parts names : List Text} (hparts : ∀ part ∈ parts, EntryName part)
    (h : t.locateFrom done parts = .ok names) : names = done.reverse ++ parts := by
  induction parts generalizing done with
  | nil =>
      obtain rfl := Except.ok.inj h
      rw [List.append_nil]
  | cons part parts ih =>
      obtain ⟨-, hrest⟩ := locateFrom_cons_eq_ok_iff.mp h
      rw [follow_of_entryName (hparts part List.mem_cons_self)] at hrest
      rw [ih (fun p hp => hparts p (List.mem_cons_of_mem _ hp)) hrest, List.reverse_cons,
        List.append_assoc, List.singleton_append]

theorem locateFrom_parent {done parts names : List Text}
    (h : t.locateFrom done parts = .ok names) (hdone : done = [] ∨ t.IsFolderAt done.tail.reverse) :
    names = [] ∨ t.IsFolderAt names.dropLast := by
  induction parts generalizing done with
  | nil =>
      obtain rfl := Except.ok.inj h
      rwa [List.dropLast_reverse, List.reverse_eq_nil_iff]
  | cons part parts ih =>
      obtain ⟨hfolder, hrest⟩ := locateFrom_cons_eq_ok_iff.mp h
      refine ih hrest ?_
      rcases isFolderAt_follow hfolder part with hnext | ⟨-, -, heq⟩
      · exact hnext.above
      · rw [heq]
        exact .inr hfolder

/-- The last part on the way to a file is no dots. -/
theorem exists_last_of_locateFrom {done parts names : List Text} {content : α}
    (h : t.locateFrom done parts = .ok names) (hfile : t.get? names = some (file content))
    (hparts : parts ≠ []) :
    ∃ front last, parts = front ++ [last] ∧ Path.isDot last = false ∧
      Path.isDotDot last = false := by
  induction parts generalizing done with
  | nil => exact absurd rfl hparts
  | cons part parts ih =>
      obtain ⟨hfolder, hrest⟩ := locateFrom_cons_eq_ok_iff.mp h
      cases parts with
      | cons part' parts' =>
          obtain ⟨front, last, heq, hlast⟩ := ih hrest (List.cons_ne_nil part' parts')
          exact ⟨part :: front, last, by rw [heq, List.cons_append], hlast⟩
      | nil =>
          refine ⟨[], part, rfl, ?_⟩
          obtain rfl := Except.ok.inj hrest
          have hnotFolder : ¬ t.IsFolderAt (follow done part).reverse := by
            rintro ⟨entries, hentries⟩
            rw [hfile] at hentries
            cases hentries
          rcases isFolderAt_follow hfolder part with hnext | ⟨hdot, hdotDot, -⟩
          · exact absurd hnext hnotFolder
          · exact ⟨hdot, hdotDot⟩

/-! ## Paths -/

theorem locate_eq_ok_iff {path : Text} {names : List Text} :
    t.locate path here = .ok names ↔
      path ≠ [] ∧ t.locateFrom (origin here path) (Path.parts path) = .ok names := by
  rw [locate]
  split
  · rename_i hpath
    simp [hpath]
  · rename_i hpath
    simp [hpath]

/-- A path leads into a folder, or to the root. -/
theorem locate_parent {path : Text} {names : List Text} (h : t.locate path here = .ok names) :
    names = [] ∨ t.IsFolderAt names.dropLast := by
  obtain ⟨hpath, hlocate⟩ := locate_eq_ok_iff.mp h
  obtain ⟨part, parts, hparts⟩ := List.exists_cons_of_ne_nil (Path.parts_ne_nil hpath)
  refine locateFrom_parent hlocate ?_
  rw [hparts] at hlocate
  exact (locateFrom_cons_eq_ok_iff.mp hlocate).1.above

theorem origin_join {folder : Text} {names : List Text} (hne : names ≠ [])
    (hnames : ∀ name ∈ names, EntryName name) :
    origin here (Path.join folder (below names)) = origin here folder := by
  rw [origin, origin]
  simp only [Path.head?_join_below folder hne hnames]

/-- Paths of other names below one folder lead elsewhere. -/
theorem locate_join_inj {folder : Text} {names names' place : List Text} (hne : names ≠ [])
    (hne' : names' ≠ []) (hnames : ∀ name ∈ names, EntryName name)
    (hnames' : ∀ name ∈ names', EntryName name)
    (h : t.locate (Path.join folder (below names)) here = .ok place)
    (h' : t.locate (Path.join folder (below names')) here = .ok place) : names = names' := by
  obtain ⟨-, h⟩ := locate_eq_ok_iff.mp h
  obtain ⟨-, h'⟩ := locate_eq_ok_iff.mp h'
  rw [origin_join hne hnames, Path.parts_join folder hne hnames,
    locateFrom_append_eq_ok_iff] at h
  rw [origin_join hne' hnames', Path.parts_join folder hne' hnames',
    locateFrom_append_eq_ok_iff] at h'
  obtain ⟨passed, hpassed, hplace⟩ := h
  obtain ⟨passed', hpassed', hplace'⟩ := h'
  obtain rfl := Except.ok.inj (hpassed.symm.trans hpassed')
  have heq := (eq_of_locateFrom hnames hplace).symm.trans (eq_of_locateFrom hnames' hplace')
  exact List.append_cancel_left heq

theorem find_eq_ok_iff {path : Text} {entry : Tree α} :
    t.find path here = .ok entry ↔
      ∃ names, t.locate path here = .ok names ∧ t.get? names = some entry := by
  rw [find, Pass.bind_eq_ok_iff]
  refine exists_congr fun names => and_congr_right fun _ => ?_
  cases t.get? names with
  | none => simp [throw, throwThe, MonadExceptOf.throw]
  | some found => simp [pure, Except.pure]

theorem read_eq_ok_iff {path : Text} {content : α} :
    t.read path here = .ok content ↔
      ∃ names, t.locate path here = .ok names ∧ t.get? names = some (file content) := by
  rw [← find_eq_ok_iff, read, Pass.bind_eq_ok_iff]
  constructor
  · rintro ⟨entry, hentry, h⟩
    cases entry with
    | file found =>
        obtain rfl := Except.ok.inj h
        exact hentry
    | folder entries => cases h
  · intro h
    exact ⟨_, h, rfl⟩

/-- A path to a file ends in its name. -/
theorem fileName?_of_find {path : Text} {content : α} (h : t.find path here = .ok (file content)) :
    ∃ name, Path.fileName? path = some name ∧ EntryName name := by
  obtain ⟨names, hlocate, hfile⟩ := find_eq_ok_iff.mp h
  obtain ⟨hpath, hlocate⟩ := locate_eq_ok_iff.mp hlocate
  obtain ⟨front, last, hparts, hdot, hdotDot⟩ :=
    exists_last_of_locateFrom hlocate hfile (Path.parts_ne_nil hpath)
  have hpieces : (path.split '/').filter (· ≠ []) = front ++ [last] := by
    rw [Path.parts] at hparts
    split at hparts
    · obtain ⟨-, hlast⟩ := List.append_inj' hparts rfl
      obtain rfl := List.singleton_inj.mp hlast
      cases hdot
    · rwa [List.append_nil] at hparts
  have hmem : last ∈ (path.split '/').filter (· ≠ []) := hpieces ▸ List.mem_append_right _ (by simp)
  obtain ⟨hsplit, hne⟩ := List.mem_filter.mp hmem
  refine ⟨last, ?_, by simpa using hne, Text.notMem_of_mem_split hsplit, hdot, hdotDot⟩
  have hfilter : (path.split '/').filter (fun part => part ≠ [] ∧ !Path.isDot part) =
      front.filter (fun part => !Path.isDot part) ++ [last] := by
    have hnested : (path.split '/').filter (fun part => part ≠ [] ∧ !Path.isDot part) =
        ((path.split '/').filter (· ≠ [])).filter fun part => !Path.isDot part := by
      rw [List.filter_filter]
      congr 1
      funext part
      simp [Bool.and_comm]
    rw [hnested, hpieces, List.filter_append]
    simp [hdot]
  rw [Path.fileName?, hfilter]
  simp [hdotDot]

end Tree

end Tsql
