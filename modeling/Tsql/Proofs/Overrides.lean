import Mathlib.Data.List.Infix
import Mathlib.Data.List.TakeWhile
import Mathlib.Tactic.Tauto
import Tsql.Proofs.Occurrence
import Tsql.Proofs.PathParts
import Tsql.Proofs.SavedScripts

/-!
# Pairs over an environment

What a name stands for once `KEY=VALUE` pairs are laid over an
environment, said of the pairs and the environment below them, without the
environment that the two are merged into. The last pair for a key settles
it; a name that no pair and no entry below settles as a whole leads from
the value of its first segment inwards, and the pairs settle that segment
too, so that a pair hides whatever is nested in the entry below it.
-/

namespace Tsql

/-! ## Members in order -/

namespace Members

/-- The keys rise, so that each of them is there once. -/
def InOrder (members : List (Text × Json)) : Prop := members.Pairwise fun a b => a.1 < b.1

theorem mem_insert {key : Text} {value : Json} {members : List (Text × Json)}
    {entry : Text × Json} (h : entry ∈ insert key value members) :
    entry.1 = key ∨ entry ∈ members := by
  induction members with
  | nil => exact Or.inl (congrArg Prod.fst (List.mem_singleton.mp h))
  | cons kv more ih =>
      obtain ⟨k, v⟩ := kv
      rw [insert] at h
      split at h
      · rcases List.mem_cons.mp h with rfl | h
        · exact Or.inl rfl
        · exact Or.inr (List.mem_cons_of_mem _ h)
      · split at h
        · rcases List.mem_cons.mp h with rfl | h
          · exact Or.inl rfl
          · exact Or.inr h
        · rcases List.mem_cons.mp h with rfl | h
          · exact Or.inr List.mem_cons_self
          · exact (ih h).imp_right (List.mem_cons_of_mem _)

theorem InOrder.insert {members : List (Text × Json)} (h : InOrder members) (key : Text)
    (value : Json) : InOrder (insert key value members) := by
  induction members with
  | nil => exact List.pairwise_singleton ..
  | cons kv more ih =>
      obtain ⟨k, v⟩ := kv
      obtain ⟨hk, hmore⟩ := List.pairwise_cons.mp h
      rw [Members.insert]
      split
      · rename_i hkey
        exact List.pairwise_cons.mpr ⟨fun entry hentry => hkey ▸ hk entry hentry, hmore⟩
      · rename_i hkey
        split
        · rename_i hlt
          refine List.pairwise_cons.mpr ⟨?_, h⟩
          intro entry hentry
          rcases List.mem_cons.mp hentry with rfl | hentry
          · exact hlt
          · exact List.lt_trans hlt (hk entry hentry)
        · rename_i hlt
          refine List.pairwise_cons.mpr ⟨?_, ih hmore⟩
          intro entry hentry
          rcases mem_insert hentry with hsame | hentry
          · rcases List.le_iff_lt_or_eq.mp (List.not_lt.mp hlt) with hbelow | heq
            · exact hsame ▸ hbelow
            · exact absurd heq hkey
          · exact hk entry hentry

theorem find?_eq_none {key : Text} {members : List (Text × Json)}
    (h : ∀ entry ∈ members, entry.1 ≠ key) : find? key members = none := by
  induction members with
  | nil => rfl
  | cons kv more ih =>
      obtain ⟨k, v⟩ := kv
      rw [find?, if_neg (h _ List.mem_cons_self)]
      exact ih fun entry hentry => h entry (List.mem_cons_of_mem _ hentry)

/-- What is on top comes first, what is below where the top has nothing. -/
theorem find?_merge_inOrder (key : Text) (base : List (Text × Json)) {top : List (Text × Json)}
    (h : InOrder top) : find? key (merge base top) = (find? key top).or (find? key base) := by
  induction top generalizing base with
  | nil => rfl
  | cons kv more ih =>
      obtain ⟨k, v⟩ := kv
      obtain ⟨hk, hmore⟩ := List.pairwise_cons.mp h
      show find? key (merge (Members.insert k v base) more) = _
      rw [ih _ hmore, find?_insert, find?]
      split
      · rename_i hkey
        have hnone : find? key more = none := by
          refine find?_eq_none fun entry hentry heq => ?_
          have hlt : k < entry.1 := hk entry hentry
          rw [heq, hkey] at hlt
          exact List.lt_irrefl key hlt
        rw [hnone, Option.none_or, Option.some_or]
      · rfl

end Members

namespace Text

/-- A text is nothing once the white space at its ends is gone if it is
all white space. -/
theorem trim_eq_nil_iff (t : Text) : t.trim = [] ↔ ∀ c ∈ t, isBlank c = true := by
  rw [trim, trimBy, List.reverse_eq_nil_iff, List.dropWhile_eq_nil_iff]
  constructor
  · intro h c hc
    by_cases hblank : isBlank c = true
    · exact hblank
    · rw [← List.takeWhile_append_dropWhile (p := isBlank) (l := t)] at hc
      rcases List.mem_append.mp hc with hc | hc
      · exact absurd (List.mem_takeWhile_imp hc) hblank
      · exact h c (List.mem_reverse.mpr hc)
  · intro h c hc
    exact h c ((List.dropWhile_sublist _).mem (List.mem_reverse.mp hc))

end Text

namespace Environment

/-! ## Pairs -/

/-- A pair gives a key a value: the key is what stands before the first
equals sign, without the white space around it, and the value is as what
stands behind the sign reads. -/
inductive Assigns : Text → Text → Json → Prop
  | pair {before behind : Text} (hequals : '=' ∉ before)
      (hkey : ∃ c ∈ before, isBlank c = false) :
      Assigns (before ++ '=' :: behind) before.trim (readScalar behind)

/-- What is wrong with a pair that gives no key a value. -/
inductive Faulty : Text → Error → Prop
  | noEquals {pair : Text} (hequals : '=' ∉ pair) : Faulty pair (.noEquals pair)
  | emptyKey {before behind : Text} (hequals : '=' ∉ before)
      (hkey : ∀ c ∈ before, isBlank c = true) :
      Faulty (before ++ '=' :: behind) (.emptyKey (before ++ '=' :: behind))

theorem cut_equals_eq_none_iff (pair : Text) : pair.cut ['='] = none ↔ '=' ∉ pair := by
  rw [Text.cut_eq_none_iff (List.cons_ne_nil '=' []), List.singleton_infix_iff]

theorem cut_equals_eq_some_iff {pair before behind : Text} :
    pair.cut ['='] = some (before, behind) ↔ pair = before ++ '=' :: behind ∧ '=' ∉ before := by
  rw [Text.cut_eq_some_iff (List.cons_ne_nil '=' []), List.append_assoc, List.singleton_append,
    List.dropLast_singleton, List.append_nil, List.singleton_infix_iff]

theorem readPair_eq_ok_iff {pair key : Text} {value : Json} :
    readPair pair = .ok (key, value) ↔ Assigns pair key value := by
  constructor
  · intro h
    rw [readPair] at h
    split at h
    · cases h
    · rename_i before behind hcut
      obtain ⟨rfl, hequals⟩ := cut_equals_eq_some_iff.mp hcut
      split at h
      · cases h
      · rename_i hkey
        cases h
        rw [Text.trim_eq_nil_iff] at hkey
        push Not at hkey
        simp only [ne_eq, Bool.not_eq_true] at hkey
        exact .pair hequals hkey
  · rintro ⟨hequals, c, hc, hblank⟩
    have hkey := fun h => Bool.false_ne_true (hblank ▸ (Text.trim_eq_nil_iff _).mp h c hc)
    rw [readPair, cut_equals_eq_some_iff.mpr ⟨rfl, hequals⟩]
    exact if_neg hkey

theorem readPair_eq_error_iff {pair : Text} {e : Error} :
    readPair pair = .error e ↔ Faulty pair e := by
  constructor
  · intro h
    rw [readPair] at h
    split at h
    · rename_i hcut
      cases h
      exact .noEquals ((cut_equals_eq_none_iff pair).mp hcut)
    · rename_i before behind hcut
      obtain ⟨rfl, hequals⟩ := cut_equals_eq_some_iff.mp hcut
      split at h
      · rename_i hkey
        cases h
        exact .emptyKey hequals ((Text.trim_eq_nil_iff before).mp hkey)
      · cases h
  · rintro (hequals | ⟨hequals, hkey⟩)
    · rw [readPair, (cut_equals_eq_none_iff _).mpr hequals]
    · rw [readPair, cut_equals_eq_some_iff.mpr ⟨rfl, hequals⟩]
      exact if_pos ((Text.trim_eq_nil_iff _).mpr hkey)

/-! ## Lists of pairs -/

/-- The last pair for a key gives it this value. -/
def LastAssigned (pairs : List Text) (key : Text) (value : Json) : Prop :=
  ∃ before pair behind, pairs = before ++ pair :: behind ∧ Assigns pair key value ∧
    ∀ later ∈ behind, ∀ other, ¬ Assigns later key other

/-- No pair is for the key. -/
def Unassigned (pairs : List Text) (key : Text) : Prop :=
  ∀ pair ∈ pairs, ∀ value, ¬ Assigns pair key value

theorem not_lastAssigned_nil (key : Text) (value : Json) : ¬ LastAssigned [] key value := by
  rintro ⟨before, pair, behind, heq, -⟩
  exact List.append_ne_nil_of_right_ne_nil before (List.cons_ne_nil pair behind) heq.symm

theorem unassigned_cons_iff {pair : Text} {more : List Text} {key : Text} :
    Unassigned (pair :: more) key ↔ (∀ value, ¬ Assigns pair key value) ∧ Unassigned more key :=
  List.forall_mem_cons

theorem lastAssigned_cons_iff {pair : Text} {more : List Text} {key : Text} {value : Json} :
    LastAssigned (pair :: more) key value ↔
      LastAssigned more key value ∨ Assigns pair key value ∧ Unassigned more key := by
  constructor
  · rintro ⟨before, last, behind, heq, hassigns, hlater⟩
    cases before with
    | nil =>
        obtain ⟨rfl, rfl⟩ := List.cons.inj heq
        exact Or.inr ⟨hassigns, hlater⟩
    | cons first before =>
        obtain ⟨-, rfl⟩ := List.cons.inj heq
        exact Or.inl ⟨before, last, behind, rfl, hassigns, hlater⟩
  · rintro (⟨before, last, behind, rfl, hassigns, hlater⟩ | ⟨hassigns, hlater⟩)
    · exact ⟨pair :: before, last, behind, rfl, hassigns, hlater⟩
    · exact ⟨[], pair, more, rfl, hassigns, hlater⟩

/-- A key that is in no pair for the last time is in none. -/
theorem unassigned_iff {pairs : List Text} {key : Text} :
    Unassigned pairs key ↔ ∀ value, ¬ LastAssigned pairs key value := by
  induction pairs with
  | nil => exact ⟨fun _ => not_lastAssigned_nil key, fun _ _ hmem => absurd hmem List.not_mem_nil⟩
  | cons pair more ih =>
      rw [unassigned_cons_iff]
      constructor
      · rintro ⟨hpair, hmore⟩ value hlast
        rcases lastAssigned_cons_iff.mp hlast with hlast | ⟨hassigns, -⟩
        · exact ih.mp hmore value hlast
        · exact hpair value hassigns
      · intro h
        have hmore := ih.mpr fun value hlast => h value (lastAssigned_cons_iff.mpr (Or.inl hlast))
        refine ⟨fun value hassigns => ?_, hmore⟩
        exact h value (lastAssigned_cons_iff.mpr (Or.inr ⟨hassigns, hmore⟩))

theorem Assigns.unique {pair key key' : Text} {value value' : Json} (h : Assigns pair key value)
    (h' : Assigns pair key' value') : key = key' ∧ value = value' := by
  rw [← readPair_eq_ok_iff] at h h'
  exact Prod.mk.inj (Except.ok.inj (h.symm.trans h'))

/-- The value a key has once the pairs are laid over an environment. -/
def Holds (base : Environment) (pairs : List Text) (key : Text) (value : Json) : Prop :=
  LastAssigned pairs key value ∨ Unassigned pairs key ∧ base.find? key = some value

theorem holds_nil_iff {base : Environment} {key : Text} {value : Json} :
    Holds base [] key value ↔ base.find? key = some value := by
  constructor
  · rintro (h | ⟨-, h⟩)
    · exact absurd h (not_lastAssigned_nil key value)
    · exact h
  · intro h
    exact Or.inr ⟨fun _ hmem => absurd hmem List.not_mem_nil, h⟩

theorem find?_insert (e : Environment) (key other : Text) (value : Json) :
    (e.insert key value).find? other = if key = other then some value else e.find? other :=
  Members.find?_insert key other value e.members

/-- A first pair is as good as an entry of the environment below. -/
theorem holds_cons_iff {base : Environment} {pair : Text} {more : List Text} {k key : Text}
    {v value : Json} (h : Assigns pair k v) :
    Holds base (pair :: more) key value ↔ Holds (base.insert k v) more key value := by
  rw [Holds, Holds, lastAssigned_cons_iff, unassigned_cons_iff, find?_insert]
  by_cases hkey : k = key
  · subst hkey
    have hpair : Assigns pair k value ↔ v = value :=
      ⟨fun h' => (h.unique h').2, fun heq => heq ▸ h⟩
    have hnot : ¬ ∀ other, ¬ Assigns pair k other := fun hall => hall v h
    rw [if_pos rfl, Option.some.injEq, hpair]
    tauto
  · have hpair : ∀ other, ¬ Assigns pair key other := fun other h' => hkey (h.unique h').1
    rw [if_neg hkey]
    have := hpair value
    tauto

/-! ## Reading a list of pairs -/

/-- Reading pairs into an environment gives each key the value it holds. -/
theorem find?_of_go {e top : Environment} {pairs : List Text} (h : ofPairs.go e pairs = .ok top)
    (key : Text) (value : Json) : top.find? key = some value ↔ Holds e pairs key value := by
  induction pairs generalizing e with
  | nil =>
      cases h
      exact holds_nil_iff.symm
  | cons pair more ih =>
      rw [ofPairs.go] at h
      split at h
      · cases h
      · rename_i k v hpair
        rw [ih h, holds_cons_iff (readPair_eq_ok_iff.mp hpair)]

theorem inOrder_of_go {e top : Environment} {pairs : List Text} (h : ofPairs.go e pairs = .ok top)
    (he : Members.InOrder e.members) : Members.InOrder top.members := by
  induction pairs generalizing e with
  | nil =>
      cases h
      exact he
  | cons pair more ih =>
      rw [ofPairs.go] at h
      split at h
      · cases h
      · exact ih h (he.insert _ _)

theorem assigns_of_go {e top : Environment} {pairs : List Text} (h : ofPairs.go e pairs = .ok top) :
    ∀ pair ∈ pairs, ∃ key value, Assigns pair key value := by
  induction pairs generalizing e with
  | nil => exact fun _ hmem => absurd hmem List.not_mem_nil
  | cons pair more ih =>
      rw [ofPairs.go] at h
      split at h
      · cases h
      · rename_i k v hpair
        exact List.forall_mem_cons.mpr ⟨⟨k, v, readPair_eq_ok_iff.mp hpair⟩, ih h⟩

theorem go_eq_error_iff {e : Environment} {pairs : List Text} {error : Error} :
    ofPairs.go e pairs = .error error ↔
      ∃ before pair behind, pairs = before ++ pair :: behind ∧
        (∀ earlier ∈ before, ∃ key value, Assigns earlier key value) ∧ Faulty pair error := by
  induction pairs generalizing e with
  | nil =>
      rw [ofPairs.go]
      constructor
      · intro h
        cases h
      · rintro ⟨before, pair, behind, heq, -⟩
        exfalso
        exact List.append_ne_nil_of_right_ne_nil before (List.cons_ne_nil pair behind) heq.symm
  | cons first more ih =>
      rw [ofPairs.go]
      cases hfirst : readPair first with
      | error fault =>
          constructor
          · intro h
            cases h
            exact ⟨[], first, more, rfl, fun _ hmem => absurd hmem List.not_mem_nil,
              readPair_eq_error_iff.mp hfirst⟩
          · rintro ⟨before, pair, behind, heq, hbefore, hpair⟩
            cases before with
            | nil =>
                obtain ⟨rfl, -⟩ := List.cons.inj heq
                rw [readPair_eq_error_iff.mpr hpair] at hfirst
                cases hfirst
                rfl
            | cons earlier before =>
                obtain ⟨rfl, -⟩ := List.cons.inj heq
                obtain ⟨key, value, hassigns⟩ := hbefore first List.mem_cons_self
                rw [readPair_eq_ok_iff.mpr hassigns] at hfirst
                cases hfirst
      | ok read =>
          obtain ⟨k, v⟩ := read
          have hassigns := readPair_eq_ok_iff.mp hfirst
          show ofPairs.go (e.insert k v) more = .error error ↔ _
          rw [ih]
          constructor
          · rintro ⟨before, pair, behind, rfl, hbefore, hpair⟩
            exact ⟨first :: before, pair, behind, rfl,
              List.forall_mem_cons.mpr ⟨⟨k, v, hassigns⟩, hbefore⟩, hpair⟩
          · rintro ⟨before, pair, behind, heq, hbefore, hpair⟩
            cases before with
            | nil =>
                obtain ⟨rfl, -⟩ := List.cons.inj heq
                rw [readPair_eq_error_iff.mpr hpair] at hfirst
                cases hfirst
            | cons earlier before =>
                obtain ⟨-, rfl⟩ := List.cons.inj heq
                exact ⟨before, pair, behind, rfl, (List.forall_mem_cons.mp hbefore).2, hpair⟩

/-! ## Names -/

/-- The value that a path of keys leads to, each one a key of the object
before it. -/
inductive Leads : Json → List Text → Json → Prop
  | here (value : Json) : Leads value [] value
  | inside {members : List (Text × Json)} {key : Text} {path : List Text} {inner value : Json}
      (hkey : Members.find? key members = some inner) (hpath : Leads inner path value) :
      Leads (.object members) (key :: path) value

theorem navigate_eq_some_iff {outer value : Json} {path : List Text} :
    navigate outer path = some value ↔ Leads outer path value := by
  constructor
  · intro h
    induction path generalizing outer with
    | nil =>
        cases h
        exact .here _
    | cons key path ih =>
        cases outer with
        | object members =>
            rw [navigate] at h
            split at h
            · rename_i inner hkey
              exact .inside hkey (ih h)
            · cases h
        | _ => cases h
  · intro h
    induction h with
    | here value => rfl
    | inside hkey hpath ih =>
        rw [navigate, hkey]
        exact ih

/-- What a name stands for once the pairs are laid over an environment. -/
inductive Stands (base : Environment) (pairs : List Text) : Text → Json → Prop
  | assigned {name : Text} {value : Json} (hlast : LastAssigned pairs name value) :
      Stands base pairs name value
  | entry {name : Text} {value : Json} (hpairs : Unassigned pairs name)
      (hentry : base.find? name = some value) : Stands base pairs name value
  | path {first : Text} {path : List Text} {outer value : Json}
      (hsegments : ∀ segment ∈ first :: path, '.' ∉ segment)
      (hpairs : Unassigned pairs (Text.joinWith ['.'] (first :: path)))
      (hentry : base.find? (Text.joinWith ['.'] (first :: path)) = none)
      (hfirst : LastAssigned pairs first outer ∨
        Unassigned pairs first ∧ base.find? first = some outer)
      (hpath : Leads outer path value) :
      Stands base pairs (Text.joinWith ['.'] (first :: path)) value

theorem find?_merge_pairs (base : Environment) {top : Environment} {pairs : List Text}
    (h : ofPairs pairs = .ok top) (key : Text) (value : Json) :
    (base.merge top).find? key = some value ↔ Holds base pairs key value := by
  have hmerge : (base.merge top).find? key = (top.find? key).or (base.find? key) :=
    Members.find?_merge_inOrder key base.members (inOrder_of_go h List.Pairwise.nil)
  have htop : ∀ v, top.find? key = some v ↔ LastAssigned pairs key v := by
    intro v
    rw [find?_of_go h key v, Holds, or_iff_left]
    rintro ⟨-, hempty⟩
    cases hempty
  rw [hmerge, Holds, unassigned_iff, ← htop]
  simp only [← htop]
  cases top.find? key with
  | none => simp
  | some v => simp

theorem find?_merge_pairs_eq_none_iff (base : Environment) {top : Environment}
    {pairs : List Text} (h : ofPairs pairs = .ok top) (key : Text) :
    (base.merge top).find? key = none ↔ Unassigned pairs key ∧ base.find? key = none := by
  rw [Option.eq_none_iff_forall_ne_some, Option.eq_none_iff_forall_ne_some]
  constructor
  · intro hnone
    have hpairs : Unassigned pairs key := unassigned_iff.mpr fun value hlast =>
      hnone value ((find?_merge_pairs base h key value).mpr (Or.inl hlast))
    exact ⟨hpairs, fun value hentry =>
      hnone value ((find?_merge_pairs base h key value).mpr (Or.inr ⟨hpairs, hentry⟩))⟩
  · rintro ⟨hpairs, hentry⟩ value hsome
    rcases (find?_merge_pairs base h key value).mp hsome with hlast | ⟨-, hbelow⟩
    · exact unassigned_iff.mp hpairs value hlast
    · exact hentry value hbelow

/-- What is read below a run's pairs: the entries of the environment file,
if there is one. -/
def IsBase (inv : Invocation) (read : Text → Except FileError ByteArray)
    (base : Environment) : Prop :=
  inv.value? .env = none ∧ base = .empty ∨
    ∃ path bytes text, inv.value? .env = some path ∧ read path = .ok bytes ∧
      Encoding.utf8? bytes = some text ∧ ofJson text = .ok base

theorem environment_eq_ok_iff {inv : Invocation} {read : Text → Except FileError ByteArray}
    {env : Environment} :
    inv.environment read = .ok env ↔
      ∃ base top, IsBase inv read base ∧ ofPairs (inv.values .assign) = .ok top ∧
        env = base.merge top := by
  -- the pairs are read behind each of the two sources of the base
  have hpairs : ∀ base : Environment,
      (do
        let top ← (ofPairs (inv.values .assign)).mapError fun error => ⟨error.message, []⟩
        return base.merge top : Except Failure Environment) = .ok env ↔
      ∃ top, ofPairs (inv.values .assign) = .ok top ∧ env = base.merge top := by
    intro base
    rw [Pass.bind_eq_ok_iff]
    simp only [mapError_eq_ok_iff, pure, Except.pure, Except.ok.injEq, eq_comm (b := env)]
  rw [Invocation.environment]
  cases henv : inv.value? .env with
  | none =>
      refine (hpairs .empty).trans ?_
      constructor
      · rintro ⟨top, htop, rfl⟩
        exact ⟨.empty, top, Or.inl ⟨henv, rfl⟩, htop, rfl⟩
      · rintro ⟨base, top, ⟨-, rfl⟩ | ⟨path, -, -, hpath, -⟩, htop, rfl⟩
        · exact ⟨top, htop, rfl⟩
        · cases henv.symm.trans hpath
  | some path =>
      constructor
      · intro h
        obtain ⟨bytes, hbytes, h⟩ := Pass.bind_eq_ok_iff.mp h
        split at h
        · obtain ⟨base, hthrow, -⟩ := Pass.bind_eq_ok_iff.mp h
          cases hthrow
        · rename_i text htext
          obtain ⟨base, hbase, h⟩ := Pass.bind_eq_ok_iff.mp h
          obtain ⟨top, htop, rfl⟩ := (hpairs base).mp h
          exact ⟨base, top, Or.inr ⟨path, bytes, text, henv, mapError_eq_ok_iff.mp hbytes, htext,
            mapError_eq_ok_iff.mp hbase⟩, htop, rfl⟩
      · rintro ⟨base, top, hbase, htop, rfl⟩
        rcases hbase with ⟨hnone, -⟩ | ⟨path', bytes, text, hpath, hbytes, htext, hbase⟩
        · cases henv.symm.trans hnone
        · cases henv.symm.trans hpath
          refine Pass.bind_eq_ok_iff.mpr ⟨bytes, mapError_eq_ok_iff.mpr hbytes, ?_⟩
          rw [htext]
          exact Pass.bind_eq_ok_iff.mpr
            ⟨base, mapError_eq_ok_iff.mpr hbase, (hpairs base).mpr ⟨top, htop, rfl⟩⟩

/-! ## The result -/

theorem lookup_merge_eq_some_iff {base top : Environment} {pairs : List Text}
    (h : ofPairs pairs = .ok top) (name : Text) (value : Json) :
    (base.merge top).lookup name = some value ↔ Stands base pairs name value := by
  have hfind := find?_merge_pairs base h
  have hnone := find?_merge_pairs_eq_none_iff base h
  rw [lookup]
  constructor
  · intro hlookup
    cases hname : (base.merge top).find? name with
    | some whole =>
        rw [hname] at hlookup
        cases hlookup
        rcases (hfind name value).mp hname with hlast | ⟨hpairs, hentry⟩
        · exact .assigned hlast
        · exact .entry hpairs hentry
    | none =>
        obtain ⟨hpairs, hentry⟩ := (hnone name).mp hname
        have hsegments : ∀ segment ∈ name.split '.', '.' ∉ segment :=
          fun _ => Text.notMem_of_mem_split
        have hjoin := Text.joinWith_split '.' name
        rw [hname] at hlookup
        cases hsplit : name.split '.' with
        | nil => exact absurd hsplit (Text.split_ne_nil '.' name)
        | cons first path =>
            rw [hsplit] at hlookup hsegments hjoin
            obtain ⟨outer, hfirst, hpath⟩ := Option.bind_eq_some_iff.mp hlookup
            rw [← hjoin] at hpairs hentry ⊢
            exact .path hsegments hpairs hentry ((hfind first outer).mp hfirst)
              (navigate_eq_some_iff.mp hpath)
  · rintro (hlast | ⟨hpairs, hentry⟩ | ⟨hsegments, hpairs, hentry, hfirst, hpath⟩)
    · rw [(hfind name value).mpr (Or.inl hlast)]
    · rw [(hfind name value).mpr (Or.inr ⟨hpairs, hentry⟩)]
    · rename_i first path outer
      rw [(hnone _).mpr ⟨hpairs, hentry⟩,
        Text.split_joinWith (List.cons_ne_nil first path) hsegments]
      show ((base.merge top).find? first).bind (navigate · path) = some value
      rw [(hfind first outer).mpr hfirst]
      exact navigate_eq_some_iff.mpr hpath

/-- Pairs laid over any environment, be it that of a run's environment file,
settle what names stand for: a name stands for the value of its last pair,
else for its entry below, else for what its segments lead to from the value
of the first one. A list of pairs is refused for its first pair without an
equals sign or with nothing but white space before it, and for that alone. -/
theorem overrides (pairs : List Text) :
    ((∃ error, ofPairs pairs = .error error) ↔ ∃ pair ∈ pairs, ∃ error, Faulty pair error) ∧
    (∀ error, ofPairs pairs = .error error ↔
      ∃ before pair behind, pairs = before ++ pair :: behind ∧
        (∀ earlier ∈ before, ∃ key value, Assigns earlier key value) ∧ Faulty pair error) ∧
    (∀ top, ofPairs pairs = .ok top → ∀ base name value,
      (base.merge top).lookup name = some value ↔ Stands base pairs name value) ∧
    ∀ inv read env, inv.values .assign = pairs → inv.environment read = .ok env →
      ∃ base, IsBase inv read base ∧
        ∀ name value, env.lookup name = some value ↔ Stands base pairs name value := by
  refine ⟨?_, fun error => go_eq_error_iff, fun top htop base => lookup_merge_eq_some_iff htop, ?_⟩
  · constructor
    · rintro ⟨error, herror⟩
      obtain ⟨before, pair, behind, rfl, -, hfaulty⟩ := go_eq_error_iff.mp herror
      exact ⟨pair, List.mem_append_right before List.mem_cons_self, error, hfaulty⟩
    · rintro ⟨pair, hmem, error, hfaulty⟩
      cases hread : ofPairs pairs with
      | error other => exact ⟨other, rfl⟩
      | ok top =>
          obtain ⟨key, value, hassigns⟩ := assigns_of_go hread pair hmem
          cases (readPair_eq_ok_iff.mpr hassigns).symm.trans (readPair_eq_error_iff.mpr hfaulty)
  · rintro inv read env rfl henv
    obtain ⟨base, top, hbase, htop, rfl⟩ := environment_eq_ok_iff.mp henv
    exact ⟨base, hbase, lookup_merge_eq_some_iff htop⟩

/-- A nested value, and an entry whose key has a dot. -/
def flavored : Environment :=
  ⟨[("build".toList, .object [("flavor".toList, .string "free".toList)]),
    ("db.name".toList, .string "main".toList), ("tier".toList, .null)]⟩

/-- `build` is given twice. -/
def buildPairs : List Text := ["build=1".toList, " db.name =x=y".toList, "build = True ".toList]

theorem overrides_buildPairs :
    ∃ top, ofPairs buildPairs = .ok top ∧
      Stands flavored buildPairs "build".toList (.bool true) ∧
      (∀ value, ¬ Stands flavored buildPairs "build.flavor".toList value) ∧
      Stands flavored buildPairs "db.name".toList (.string "x=y".toList) ∧
      Stands flavored buildPairs "tier".toList .null := by
  obtain ⟨-, -, hlookup, -⟩ := overrides buildPairs
  obtain ⟨top, htop⟩ : ∃ top, ofPairs buildPairs = .ok top := ⟨_, rfl⟩
  have hstands := hlookup top htop flavored
  have hmissing : (flavored.merge top).lookup "build.flavor".toList = none := by
    cases htop
    rfl
  refine ⟨top, htop, (hstands _ _).mp ?_, fun value hvalue => ?_, (hstands _ _).mp ?_,
    (hstands _ _).mp ?_⟩
  · cases htop
    rfl
  · cases hmissing.symm.trans ((hstands _ _).mpr hvalue)
  · cases htop
    rfl
  · cases htop
    rfl

end Environment

end Tsql
