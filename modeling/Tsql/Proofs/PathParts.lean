import Tsql.Path

/-!
# The parts of a path

A path is taken apart at its slashes, and unless it is empty there is
something between them or behind the last (`Path.parts_ne_nil`). Names of
entries hold no slash, so that a path put together from names is taken
apart into them again, behind a folder as well (`Path.parts_join`).
-/

namespace Tsql

/-! ## Splitting and joining -/

namespace Text

variable {sep : Char}

theorem split_cons_of_ne {c : Char} (h : c ≠ sep) (cs : Text) :
    ∃ piece more, split sep cs = piece :: more ∧ split sep (c :: cs) = (c :: piece) :: more := by
  have hsplit : ∃ piece more, split sep cs = piece :: more := by
    cases cs with
    | nil => exact ⟨[], [], rfl⟩
    | cons d ds =>
        rw [split]
        split
        · exact ⟨_, _, rfl⟩
        · split
          · exact ⟨_, _, rfl⟩
          · exact ⟨_, _, rfl⟩
  obtain ⟨piece, more, hpieces⟩ := hsplit
  refine ⟨piece, more, hpieces, ?_⟩
  rw [split, if_neg h, hpieces]

theorem split_ne_nil (sep : Char) (t : Text) : split sep t ≠ [] := by
  cases t with
  | nil => exact List.cons_ne_nil [] []
  | cons c cs =>
      by_cases hc : c = sep
      · rw [split, if_pos hc]
        exact List.cons_ne_nil [] _
      · obtain ⟨piece, more, -, hsplit⟩ := split_cons_of_ne hc cs
        rw [hsplit]
        exact List.cons_ne_nil _ more

/-- Splitting only takes the separators away. -/
theorem joinWith_split (sep : Char) (t : Text) : joinWith [sep] (split sep t) = t := by
  induction t with
  | nil => rfl
  | cons c cs ih =>
      by_cases hc : c = sep
      · rw [split, if_pos hc]
        cases hcs : split sep cs with
        | nil => exact absurd hcs (split_ne_nil sep cs)
        | cons piece more =>
            show sep :: joinWith [sep] (piece :: more) = c :: cs
            rw [← hcs, ih, hc]
      · obtain ⟨piece, more, hcs, hsplit⟩ := split_cons_of_ne hc cs
        rw [hcs] at ih
        rw [hsplit]
        cases more with
        | nil => exact congrArg (c :: ·) ih
        | cons next more => exact congrArg (c :: ·) ih

theorem split_append (sep : Char) (a b : Text) :
    split sep (a ++ sep :: b) = split sep a ++ split sep b := by
  induction a with
  | nil => simp [split]
  | cons c cs ih =>
      by_cases h : c = sep
      · rw [List.cons_append, split, if_pos h, ih, split, if_pos h, List.cons_append]
      · obtain ⟨piece, more, hpieces, hsplit⟩ := split_cons_of_ne h cs
        rw [hsplit, List.cons_append, split, if_neg h, ih, hpieces, List.cons_append]
        rfl

theorem split_of_notMem {t : Text} (h : sep ∉ t) : split sep t = [t] := by
  induction t with
  | nil => rfl
  | cons c cs ih =>
      have hc : c ≠ sep := fun heq => h (heq ▸ List.mem_cons_self)
      rw [split, if_neg hc, ih fun hmem => h (List.mem_cons_of_mem c hmem)]

theorem notMem_of_mem_split {t piece : Text} (h : piece ∈ split sep t) : sep ∉ piece := by
  induction t generalizing piece with
  | nil =>
      obtain rfl := List.mem_singleton.mp h
      exact List.not_mem_nil
  | cons c cs ih =>
      by_cases hc : c = sep
      · rw [split, if_pos hc] at h
        rcases List.mem_cons.mp h with rfl | h
        · exact List.not_mem_nil
        · exact ih h
      · obtain ⟨first, more, hpieces, hsplit⟩ := split_cons_of_ne hc cs
        rw [hsplit] at h
        rw [hpieces] at ih
        rcases List.mem_cons.mp h with rfl | h
        · have hfirst := ih List.mem_cons_self
          simp [Ne.symm hc, hfirst]
        · exact ih (List.mem_cons_of_mem first h)

theorem exists_mem_of_joinWith {c : Char} {pieces : List Text} (h : c ∈ joinWith [sep] pieces)
    (hc : c ≠ sep) : ∃ piece ∈ pieces, c ∈ piece := by
  induction pieces with
  | nil => cases h
  | cons piece more ih =>
      cases more with
      | nil => exact ⟨piece, List.mem_cons_self, h⟩
      | cons next more =>
          rw [joinWith, List.mem_append, List.mem_append, List.mem_singleton] at h
          rcases h with (hin | hsep) | hmore
          · exact ⟨piece, List.mem_cons_self, hin⟩
          · exact absurd hsep hc
          · obtain ⟨other, hother, hin⟩ := ih hmore
            exact ⟨other, List.mem_cons_of_mem piece hother, hin⟩

theorem split_joinWith {pieces : List Text} (hne : pieces ≠ [])
    (h : ∀ piece ∈ pieces, sep ∉ piece) : split sep (joinWith [sep] pieces) = pieces := by
  induction pieces with
  | nil => exact absurd rfl hne
  | cons piece more ih =>
      have hpiece := split_of_notMem (h piece List.mem_cons_self)
      cases more with
      | nil => exact hpiece
      | cons next more =>
          have hmore := ih (List.cons_ne_nil next more) fun p hp => h p (List.mem_cons_of_mem _ hp)
          rw [joinWith, List.append_assoc, List.singleton_append, split_append, hpiece, hmore,
            List.singleton_append]

end Text

namespace Path

/-- The name of an entry of a folder. -/
structure EntryName (name : Text) : Prop where
  nonempty : name ≠ []
  noSlash : '/' ∉ name
  noDot : isDot name = false
  noDotDot : isDotDot name = false

instance (name : Text) : Decidable (EntryName name) :=
  decidable_of_iff
    (name ≠ [] ∧ '/' ∉ name ∧ isDot name = false ∧ isDotDot name = false)
    ⟨fun ⟨h₁, h₂, h₃, h₄⟩ => ⟨h₁, h₂, h₃, h₄⟩, fun ⟨h₁, h₂, h₃, h₄⟩ => ⟨h₁, h₂, h₃, h₄⟩⟩

/-- The path below a folder that names of entries make up. -/
def below (names : List Text) : Text := Text.joinWith ['/'] names

variable {names : List Text}

theorem below_ends (hne : names ≠ []) (h : ∀ name ∈ names, EntryName name) :
    ∃ c, c ≠ '/' ∧ (below names).getLast? = some c := by
  induction names with
  | nil => exact absurd rfl hne
  | cons name more ih =>
      cases more with
      | nil =>
          have hname := h name List.mem_cons_self
          refine ⟨name.getLast hname.nonempty, ?_, List.getLast?_eq_some_getLast _⟩
          intro hlast
          exact hname.noSlash (hlast ▸ List.getLast_mem hname.nonempty)
      | cons next more =>
          obtain ⟨c, hc, hlast⟩ :=
            ih (List.cons_ne_nil next more) fun n hn => h n (List.mem_cons_of_mem _ hn)
          refine ⟨c, hc, ?_⟩
          rw [below, Text.joinWith, List.getLast?_append, ← below, hlast, Option.some_or]

theorem below_starts (hne : names ≠ []) (h : ∀ name ∈ names, EntryName name) :
    ∃ c, c ≠ '/' ∧ (below names).head? = some c := by
  cases names with
  | nil => exact absurd rfl hne
  | cons name more =>
      have hname := h name List.mem_cons_self
      obtain ⟨c, cs, rfl⟩ := List.exists_cons_of_ne_nil hname.nonempty
      refine ⟨c, fun hc => hname.noSlash (hc ▸ List.mem_cons_self), ?_⟩
      cases more with
      | nil => rfl
      | cons next more => rfl

/-- A path behind a folder starts at the root just if that of the folder
does. -/
theorem head?_join_below (folder : Text) (hne : names ≠ []) (h : ∀ name ∈ names, EntryName name) :
    (join folder (below names)).head? = some '/' ↔ folder.head? = some '/' := by
  obtain ⟨c, hc, hstarts⟩ := below_starts hne h
  cases folder with
  | nil => simp [join, hstarts, hc]
  | cons d ds =>
      rw [join]
      split <;> rfl

/-- Every path has a part, that of the root by its slash at the end. -/
theorem parts_ne_nil {path : Text} (hpath : path ≠ []) : parts path ≠ [] := by
  intro hnil
  rw [parts, List.append_eq_nil_iff] at hnil
  obtain ⟨hpieces, hend⟩ := hnil
  have hlast : path.getLast hpath ≠ '/' := by
    intro hslash
    rw [List.getLast?_eq_some_getLast hpath, hslash] at hend
    cases hend
  have hmem : path.getLast hpath ∈ Text.joinWith ['/'] (path.split '/') := by
    rw [Text.joinWith_split]
    exact List.getLast_mem hpath
  obtain ⟨piece, hpiece, hin⟩ := Text.exists_mem_of_joinWith hmem hlast
  have hempty : piece = [] := by simpa using List.filter_eq_nil_iff.mp hpieces piece hpiece
  rw [hempty] at hin
  cases hin

theorem parts_eq_filter {path : Text} {c : Char} (hc : c ≠ '/') (h : path.getLast? = some c) :
    parts path = (path.split '/').filter (· ≠ []) := by
  rw [parts, h, if_neg (by simpa using hc), List.append_nil]

/-- Behind a folder, a path of names has these as its last parts. -/
theorem parts_join (folder : Text) (hne : names ≠ []) (h : ∀ name ∈ names, EntryName name) :
    parts (join folder (below names)) = (folder.split '/').filter (· ≠ []) ++ names := by
  have hsplit : Text.split '/' (below names) = names :=
    Text.split_joinWith hne fun name hname => (h name hname).noSlash
  have hnames : names.filter (· ≠ []) = names :=
    List.filter_eq_self.mpr fun name hname => by simpa using (h name hname).nonempty
  obtain ⟨c, hc, hlast⟩ := below_ends hne h
  have hends : ∀ front : Text, (front ++ below names).getLast? = some c := by
    intro front
    rw [List.getLast?_append, hlast, Option.some_or]
  rw [join]
  split
  · rename_i hfolder
    rw [parts_eq_filter hc (hends folder)]
    rcases hfolder with rfl | hslash
    · rw [List.nil_append, hsplit, hnames]
      rfl
    · obtain ⟨front, rfl⟩ := List.getLast?_eq_some_iff.mp hslash
      rw [List.append_assoc, List.singleton_append, Text.split_append, Text.split_append, hsplit,
        List.filter_append, List.filter_append, hnames]
      simp [Text.split]
  · have hlong : (folder ++ '/' :: below names).getLast? = some c := by
      rw [← List.singleton_append, ← List.append_assoc]
      exact hends _
    rw [parts_eq_filter hc hlong, Text.split_append, hsplit, List.filter_append, hnames]

end Path

end Tsql
