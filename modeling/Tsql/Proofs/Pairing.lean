import Tsql.Proofs.Nesting

/-!
# Pairs within batches

Parentheses pair up, and so do the words that open and close blocks, each
sort by itself. To one sort a token is one of four things (`Role`), and
which tokens are partners can be said without a stack: an opening and a
closing token are partners if everything between them pairs up
(`Balanced`). Since nothing that pairs up reaches over the end of a
batch, partners are always in one batch.

`unpaired` is what the checks do for one sort, with the stack. It reports
the tokens that have no partner (`mem_unpaired_iff`), and nothing if every
batch pairs up (`unpaired_eq_nil_iff`).
-/

namespace Tsql

namespace Structure

/-! ## Roles -/

/-- What a token is to one sort of pairs. -/
inductive Role where
  | opens
  | closes
  /-- The end of a batch -/
  | ends
  | plain
  deriving DecidableEq, Repr

/-- Roles that pair up, the last that was opened being the first that is
closed. -/
inductive Balanced : List Role → Prop where
  | nil : Balanced []
  | plain {rs : List Role} (rest : Balanced rs) : Balanced (.plain :: rs)
  | pair {inner rs : List Role} (between : Balanced inner) (rest : Balanced rs) :
      Balanced (.opens :: (inner ++ .closes :: rs))

/-- Whether a closing token behind these roles finds its partner among
them, or an opening one before them. -/
def HasOpener (before : List Role) : Prop :=
  ∃ rest inner, before = rest ++ .opens :: inner ∧ Balanced inner

def HasCloser (behind : List Role) : Prop :=
  ∃ inner rest, behind = inner ++ .closes :: rest ∧ Balanced inner

/-! ## Heights -/

/-- The number of openings without partner behind a token, from the
number before it. -/
def Role.move : Role → Nat → Option Nat
  | .opens, h => some (h + 1)
  | .closes, 0 => none
  | .closes, h + 1 => some h
  | .ends, _ => none
  | .plain, h => some h

def height (h : Nat) (rs : List Role) : Option Nat := rs.foldlM (fun h r => r.move h) h

@[simp] theorem height_nil (h : Nat) : height h [] = some h := rfl

@[simp] theorem height_cons (h : Nat) (r : Role) (rs : List Role) :
    height h (r :: rs) = (r.move h).bind (height · rs) := List.foldlM_cons

theorem height_append (h : Nat) (rs us : List Role) :
    height h (rs ++ us) = (height h rs).bind (height · us) := List.foldlM_append

/-- What pairs up leaves the height as it is. -/
theorem Balanced.height_eq {rs : List Role} (hrs : Balanced rs) (h : Nat) :
    height h rs = some h := by
  induction hrs generalizing h with
  | nil => rfl
  | plain _ ih => simp [Role.move, ih]
  | pair _ _ ihinner ihrest => simp [Role.move, height_append, ihinner, ihrest]

/-- The roles close `h` openings before them, and what stands between
pairs up. -/
def Parts : Nat → List Role → Prop
  | 0, rs => Balanced rs
  | h + 1, rs => ∃ inner rest, rs = inner ++ .closes :: rest ∧ Balanced inner ∧ Parts h rest

theorem parts_of_height {h : Nat} {rs : List Role} (hrs : height h rs = some 0) : Parts h rs := by
  induction rs generalizing h with
  | nil =>
      obtain rfl : h = 0 := Option.some.inj hrs
      exact .nil
  | cons r rs ih =>
      rw [height_cons] at hrs
      cases r with
      | opens =>
          obtain ⟨inner, rest, rfl, hinner, hrest⟩ := ih (h := h + 1) hrs
          cases h with
          | zero => exact .pair hinner hrest
          | succ h =>
              obtain ⟨inner', rest', rfl, hinner', hrest'⟩ := hrest
              exact ⟨.opens :: (inner ++ .closes :: inner'), rest', by simp,
                .pair hinner hinner', hrest'⟩
      | closes =>
          cases h with
          | zero => cases hrs
          | succ h => exact ⟨[], rs, rfl, .nil, ih hrs⟩
      | ends => cases hrs
      | plain =>
          have hparts := ih (h := h) hrs
          cases h with
          | zero => exact .plain hparts
          | succ h =>
              obtain ⟨inner, rest, rfl, hinner, hrest⟩ := hparts
              exact ⟨.plain :: inner, rest, rfl, .plain hinner, hrest⟩

theorem balanced_iff (rs : List Role) : Balanced rs ↔ height 0 rs = some 0 :=
  ⟨fun h => h.height_eq 0, parts_of_height⟩

/-! ## Partners, step by step -/

/-- The roles close the innermost but `d` of the openings before them. -/
def ClosesAt (d : Nat) (rs : List Role) : Prop :=
  ∃ inner rest, rs = inner ++ .closes :: rest ∧ height d inner = some 0

theorem hasCloser_iff (rs : List Role) : HasCloser rs ↔ ClosesAt 0 rs := by
  simp only [HasCloser, ClosesAt, balanced_iff]

theorem not_closesAt_nil (d : Nat) : ¬ ClosesAt d [] := by
  rintro ⟨inner, rest, heq, -⟩
  simp at heq

theorem closesAt_cons_iff (d : Nat) (r : Role) (rs : List Role) :
    ClosesAt d (r :: rs) ↔ (r = .closes ∧ d = 0) ∨ ∃ d', r.move d = some d' ∧ ClosesAt d' rs := by
  constructor
  · rintro ⟨inner, rest, heq, hheight⟩
    cases inner with
    | nil =>
        obtain ⟨rfl, -⟩ := List.cons.inj heq
        exact Or.inl ⟨rfl, Option.some.inj hheight⟩
    | cons r' inner =>
        obtain ⟨rfl, rfl⟩ := List.cons.inj heq
        obtain ⟨d', hmove, hinner⟩ := Option.bind_eq_some_iff.mp hheight
        exact Or.inr ⟨d', hmove, inner, rest, rfl, hinner⟩
  · rintro (⟨rfl, rfl⟩ | ⟨d', hmove, inner, rest, rfl, hinner⟩)
    · exact ⟨[], rs, rfl, rfl⟩
    · exact ⟨r :: inner, rest, rfl, by rw [height_cons, hmove]; exact hinner⟩

/-- A closing token with these roles before it, and `n` openings before
them, has a partner. -/
def Met (n : Nat) (rs : List Role) : Prop := HasOpener rs ∨ ∃ k < n, height k rs = some 0

theorem met_nil_iff (n : Nat) : Met n [] ↔ 0 < n := by
  constructor
  · rintro (⟨rest, inner, heq, -⟩ | ⟨k, hk, -⟩)
    · simp at heq
    · omega
  · intro hn
    exact Or.inr ⟨0, hn, rfl⟩

theorem hasOpener_cons_iff (r : Role) (rs : List Role) :
    HasOpener (r :: rs) ↔ (r = .opens ∧ height 0 rs = some 0) ∨ HasOpener rs := by
  constructor
  · rintro ⟨rest, inner, heq, hinner⟩
    cases rest with
    | nil =>
        obtain ⟨rfl, rfl⟩ := List.cons.inj heq
        exact Or.inl ⟨rfl, hinner.height_eq 0⟩
    | cons r' rest =>
        obtain ⟨-, rfl⟩ := List.cons.inj heq
        exact Or.inr ⟨rest, inner, rfl, hinner⟩
  · rintro (⟨rfl, hheight⟩ | ⟨rest, inner, rfl, hinner⟩)
    · exact ⟨[], rs, rfl, (balanced_iff rs).mpr hheight⟩
    · exact ⟨r :: rest, inner, rfl, hinner⟩

/-- The openings that are left behind a token. -/
def Role.left : Role → Nat → Nat
  | .opens, n => n + 1
  | .closes, n => n - 1
  | .ends, _ => 0
  | .plain, n => n

theorem met_cons_iff (n : Nat) (r : Role) (rs : List Role) :
    Met n (r :: rs) ↔ Met (r.left n) rs := by
  unfold Met
  rw [hasOpener_cons_iff]
  cases r with
  | opens =>
      constructor
      · rintro ((⟨-, hheight⟩ | hopener) | ⟨k, hk, hheight⟩)
        · exact Or.inr ⟨0, Nat.succ_pos n, hheight⟩
        · exact Or.inl hopener
        · exact Or.inr ⟨k + 1, Nat.succ_lt_succ hk, hheight⟩
      · rintro (hopener | ⟨k, hk, hheight⟩)
        · exact Or.inl (Or.inr hopener)
        · cases k with
          | zero => exact Or.inl (Or.inl ⟨rfl, hheight⟩)
          | succ k => exact Or.inr ⟨k, Nat.lt_of_succ_lt_succ hk, hheight⟩
  | closes =>
      constructor
      · rintro ((⟨hrole, -⟩ | hopener) | ⟨k, hk, hheight⟩)
        · cases hrole
        · exact Or.inl hopener
        · cases k with
          | zero => cases hheight
          | succ k => exact Or.inr ⟨k, Nat.lt_sub_of_add_lt hk, hheight⟩
      · rintro (hopener | ⟨k, hk, hheight⟩)
        · exact Or.inl (Or.inr hopener)
        · exact Or.inr ⟨k + 1, Nat.add_lt_of_lt_sub hk, hheight⟩
  | ends =>
      constructor
      · rintro ((⟨hrole, -⟩ | hopener) | ⟨k, -, hheight⟩)
        · cases hrole
        · exact Or.inl hopener
        · cases hheight
      · rintro (hopener | ⟨k, hk, -⟩)
        · exact Or.inl (Or.inr hopener)
        · exact absurd hk (Nat.not_lt_zero k)
  | plain =>
      constructor
      · rintro ((⟨hrole, -⟩ | hopener) | hheight)
        · cases hrole
        · exact Or.inl hopener
        · exact Or.inr hheight
      · rintro (hopener | hheight)
        · exact Or.inl (Or.inr hopener)
        · exact Or.inr hheight

/-! ## The checks of one sort -/

/-- The stack behind a token, from the one before it. -/
def Role.act (r : Role) (here : Opening) (stack : List Opening) : List Opening :=
  match r with
  | .opens => here :: stack
  | .closes => stack.tail
  | .ends => []
  | .plain => stack

/-- What is reported of an opening that was left open. -/
def leftOpen (cause : Text → Problem.Cause) (o : Opening) : Problem := ⟨o.position, cause o.text⟩

/-- What is reported of a closing token without partner. -/
def stray (o : Opening) : Problem := ⟨o.position, .near o.text⟩

/-- What is reported at a token. -/
def Role.report (cause : Text → Problem.Cause) (r : Role) (here : Opening)
    (stack : List Opening) : List Problem :=
  match r with
  | .closes => if stack = [] then [stray here] else []
  | .ends => stack.map (leftOpen cause)
  | .opens | .plain => []

/-- All that is reported of one sort. -/
def unpaired (cause : Text → Problem.Cause) : List Opening → List (Role × Opening) → List Problem
  | stack, [] => stack.map (leftOpen cause)
  | stack, (r, here) :: marks =>
    r.report cause here stack ++ unpaired cause (r.act here stack) marks

theorem length_act (r : Role) (here : Opening) (stack : List Opening) :
    (r.act here stack).length = r.left stack.length := by
  cases r <;> simp [Role.act, Role.left]

variable {cause : Text → Problem.Cause}

/-- A problem of a stack: some opening of it is not closed. -/
def OnStack (cause : Text → Problem.Cause) (stack : List Opening) (rs : List Role)
    (p : Problem) : Prop :=
  ∃ (k : Nat) (o : Opening), stack[k]? = some o ∧ p = leftOpen cause o ∧ ¬ ClosesAt k rs

/-- A problem of a token: it opens or closes something and has no
partner. -/
def OnToken (cause : Text → Problem.Cause) (n : Nat) (marks : List (Role × Opening))
    (p : Problem) : Prop :=
  ∃ pre r o post, marks = pre ++ (r, o) :: post ∧
    ((r = .opens ∧ p = leftOpen cause o ∧ ¬ ClosesAt 0 (post.map Prod.fst)) ∨
      (r = .closes ∧ p = stray o ∧ ¬ Met n (pre.map Prod.fst)))

theorem onToken_cons_iff (n : Nat) (r : Role) (o : Opening) (marks : List (Role × Opening))
    (p : Problem) :
    OnToken cause n ((r, o) :: marks) p ↔
      (r = .opens ∧ p = leftOpen cause o ∧ ¬ ClosesAt 0 (marks.map Prod.fst)) ∨
        (r = .closes ∧ p = stray o ∧ n = 0) ∨ OnToken cause (r.left n) marks p := by
  have hhere : ¬ Met n [] ↔ n = 0 := by
    rw [met_nil_iff]
    omega
  constructor
  · rintro ⟨pre, r', o', post, heq, hcases⟩
    cases pre with
    | nil =>
        obtain ⟨hmark, rfl⟩ := List.cons.inj heq
        obtain ⟨rfl, rfl⟩ := Prod.mk.inj hmark
        rcases hcases with hopen | ⟨hrole, hp, hmet⟩
        · exact Or.inl hopen
        · exact Or.inr (Or.inl ⟨hrole, hp, hhere.mp hmet⟩)
    | cons mark pre =>
        obtain ⟨rfl, rfl⟩ := List.cons.inj heq
        refine Or.inr (Or.inr ⟨pre, r', o', post, rfl, hcases.imp_right ?_⟩)
        rintro ⟨hrole, hp, hmet⟩
        rw [List.map_cons, met_cons_iff] at hmet
        exact ⟨hrole, hp, hmet⟩
  · rintro (hopen | ⟨hrole, hp, hn⟩ | ⟨pre, r', o', post, rfl, hcases⟩)
    · exact ⟨[], r, o, marks, rfl, Or.inl hopen⟩
    · exact ⟨[], r, o, marks, rfl, Or.inr ⟨hrole, hp, hhere.mpr hn⟩⟩
    · refine ⟨(r, o) :: pre, r', o', post, rfl, hcases.imp_right ?_⟩
      rintro ⟨hrole, hp, hmet⟩
      refine ⟨hrole, hp, ?_⟩
      rw [List.map_cons, met_cons_iff]
      exact hmet

theorem onStack_of_never {stack : List Opening} {rs : List Role} (h : ∀ k, ¬ ClosesAt k rs)
    (p : Problem) : OnStack cause stack rs p ↔ p ∈ stack.map (leftOpen cause) := by
  rw [List.mem_map]
  constructor
  · rintro ⟨k, o, hstack, rfl, -⟩
    exact ⟨o, List.mem_of_getElem? hstack, rfl⟩
  · rintro ⟨o, ho, rfl⟩
    obtain ⟨k, hk⟩ := List.mem_iff_getElem?.mp ho
    exact ⟨k, o, hk, rfl, h k⟩

theorem not_onStack_nil (rs : List Role) (p : Problem) : ¬ OnStack cause [] rs p := by
  rintro ⟨k, o, hstack, -⟩
  simp at hstack

theorem onStack_congr {stack : List Opening} {rs rs' : List Role}
    (h : ∀ k, ClosesAt k rs ↔ ClosesAt k rs') (p : Problem) :
    OnStack cause stack rs p ↔ OnStack cause stack rs' p := by
  simp only [OnStack, h]

/-- A problem of the top of the stack, or of what is below it. -/
theorem onStack_push_iff {o : Opening} {stack : List Opening} {rs rs' : List Role}
    (h : ∀ k, ClosesAt (k + 1) rs ↔ ClosesAt k rs') (p : Problem) :
    OnStack cause (o :: stack) rs p ↔
      (p = leftOpen cause o ∧ ¬ ClosesAt 0 rs) ∨ OnStack cause stack rs' p := by
  constructor
  · rintro ⟨k, o', hstack, hp, hcloses⟩
    cases k with
    | zero =>
        obtain rfl : o = o' := Option.some.inj hstack
        exact Or.inl ⟨hp, hcloses⟩
    | succ k => exact Or.inr ⟨k, o', hstack, hp, fun hk => hcloses ((h k).mpr hk)⟩
  · rintro (⟨hp, hcloses⟩ | ⟨k, o', hstack, hp, hcloses⟩)
    · exact ⟨0, o, rfl, hp, hcloses⟩
    · exact ⟨k + 1, o', hstack, hp, fun hk => hcloses ((h k).mp hk)⟩

/-- One token: what is found of the stack and of the token is what is
reported there, and what is found of the new stack. -/
theorem onStack_step_iff (stack : List Opening) (r : Role) (here : Opening) (rs : List Role)
    (p : Problem) :
    (OnStack cause stack (r :: rs) p ∨
        (r = .opens ∧ p = leftOpen cause here ∧ ¬ ClosesAt 0 rs) ∨
        (r = .closes ∧ p = stray here ∧ stack.length = 0)) ↔
      p ∈ r.report cause here stack ∨ OnStack cause (r.act here stack) rs p := by
  cases r with
  | opens =>
      have hdeeper : ∀ k, ClosesAt (k + 1) rs ↔ ClosesAt k (.opens :: rs) := by
        intro k
        simp [closesAt_cons_iff, Role.move]
      rw [Role.act, onStack_push_iff hdeeper, Role.report]
      simp [or_comm]
  | closes =>
      have hshallower : ∀ k, ClosesAt (k + 1) (.closes :: rs) ↔ ClosesAt k rs := by
        intro k
        simp [closesAt_cons_iff, Role.move]
      cases stack with
      | nil => simp [Role.act, Role.report, not_onStack_nil]
      | cons o stack =>
          have hhere : ClosesAt 0 (.closes :: rs) := (closesAt_cons_iff ..).mpr (Or.inl ⟨rfl, rfl⟩)
          rw [onStack_push_iff hshallower, Role.act, Role.report]
          simp [hhere]
  | ends =>
      have hnever : ∀ k, ¬ ClosesAt k (.ends :: rs) := by
        intro k
        simp [closesAt_cons_iff, Role.move]
      rw [onStack_of_never hnever, Role.act, Role.report]
      simp [not_onStack_nil]
  | plain =>
      have hsame : ∀ k, ClosesAt k (.plain :: rs) ↔ ClosesAt k rs := by
        intro k
        simp [closesAt_cons_iff, Role.move]
      rw [onStack_congr hsame, Role.act, Role.report]
      simp

/-- What is reported of one sort are the openings of the stack that are
not closed, and the tokens without partner. -/
theorem mem_unpaired_iff (stack : List Opening) (marks : List (Role × Opening)) (p : Problem) :
    p ∈ unpaired cause stack marks ↔
      OnStack cause stack (marks.map Prod.fst) p ∨ OnToken cause stack.length marks p := by
  induction marks generalizing stack with
  | nil =>
      rw [unpaired, List.map_nil, onStack_of_never not_closesAt_nil]
      refine (or_iff_left ?_).symm
      rintro ⟨pre, r, o, post, heq, -⟩
      simp at heq
  | cons mark marks ih =>
      obtain ⟨r, here⟩ := mark
      rw [unpaired, List.mem_append, ih, length_act, List.map_cons, onToken_cons_iff, ← or_assoc,
        ← onStack_step_iff]
      simp only [or_assoc]

/-! ## Batches -/

/-- The first of the batches closes `n` openings before it, and all
others pair up. -/
def Clears (n : Nat) : List (List Role) → Prop
  | [] => True
  | batch :: batches => height n batch = some 0 ∧ ∀ b ∈ batches, height 0 b = some 0

/-- Nothing is reported if every batch closes what was open before it. -/
theorem unpaired_eq_nil_iff_clears (stack : List Opening) (marks : List (Role × Opening)) :
    unpaired cause stack marks = [] ↔
      Clears stack.length ((marks.map Prod.fst).splitOn .ends) := by
  induction marks generalizing stack with
  | nil => simp [unpaired, Clears, List.splitOn_nil]
  | cons mark marks ih =>
      obtain ⟨r, here⟩ := mark
      have hcons : (r :: marks.map Prod.fst).splitOn .ends =
          if r = .ends then [] :: (marks.map Prod.fst).splitOn .ends
          else ((marks.map Prod.fst).splitOn .ends).modifyHead (r :: ·) := by
        rw [List.splitOn, List.splitOnP_cons_eq_if_modifyHead]
        simp only [beq_iff_eq]
        rfl
      rw [unpaired, List.append_eq_nil_iff, ih, length_act, List.map_cons, hcons]
      obtain ⟨batch, batches, hsplit⟩ :=
        List.exists_cons_of_ne_nil (List.splitOn_ne_nil .ends (marks.map Prod.fst))
      rw [hsplit]
      cases r with
      | opens => simp [Role.report, Role.left, Clears, Role.move]
      | closes =>
          cases stack with
          | nil => simp [Role.report, Clears, Role.move]
          | cons o stack => simp [Role.report, Role.left, Clears, Role.move]
      | ends => simp [Role.report, Role.left, Clears]
      | plain => simp [Role.report, Role.left, Clears, Role.move]

/-- Nothing is reported if every batch pairs up, and only then. -/
theorem unpaired_eq_nil_iff (marks : List (Role × Opening)) :
    unpaired cause [] marks = [] ↔
      ∀ batch ∈ (marks.map Prod.fst).splitOn .ends, Balanced batch := by
  rw [unpaired_eq_nil_iff_clears]
  obtain ⟨batch, batches, hsplit⟩ :=
    List.exists_cons_of_ne_nil (List.splitOn_ne_nil .ends (marks.map Prod.fst))
  rw [hsplit]
  simp [Clears, balanced_iff]

end Structure

end Tsql
