import Tsql.Proofs.Pairing
import Tsql.Proofs.SourceMap

/-!
# The problems of a script's structure

What the checks of a script find, said of its tokens and without the
checks. White space and comments aside, a token is at fault (`Fault`) if
it opens or closes a parenthesis or a block and has no partner in its
batch, or if it calls a function that the level lacks.

The checks keep two stacks and one list of what was found. `step_parts`
takes them apart: each stack is moved by one sort of tokens alone, and
what is found is what each sort reports. `problems_of_read` puts the
parts together. Each token gives rise to one problem at most
(`count_places_run`), and so the places of the problems increase
strictly.
-/

namespace Tsql

/-- A token as the checks note it. -/
def Token.opening (t : Token) : Structure.Opening := ⟨t.position.getD .start, t.text⟩

namespace Structure

variable {level : Level}

/-! ## The roles of tokens -/

def parenRole (t : Token) (_next : Option Token) : Role :=
  if t.kind = .leftParen then .opens
  else if t.kind = .rightParen then .closes
  else if t.kind = .batchSeparator then .ends
  else .plain

/-- `BEGIN` and `CASE` open a block and `END` closes it, unless the next
word makes a statement of them. -/
def blockRole (t : Token) (next : Option Token) : Role :=
  if t.isKeyword "BEGIN" then if next.any beginsStatement then .plain else .opens
  else if t.isKeyword "CASE" then .opens
  else if t.isKeyword "END" then
    if next.any (·.isWord "CONVERSATION") then .plain else .closes
  else if t.kind = .batchSeparator then .ends
  else .plain

/-- The roles of tokens with `next` behind them. -/
def roles (role : Token → Option Token → Role) (next : Option Token) : List Token → List Role
  | [] => []
  | t :: ts => role t (ts.head?.or next) :: roles role next ts

/-- The roles, and with each the token it is of. -/
def marks (role : Token → Option Token → Role) (next : Option Token) :
    List Token → List (Role × Opening)
  | [] => []
  | t :: ts => (role t (ts.head?.or next), t.opening) :: marks role next ts

@[simp] theorem map_fst_marks (role : Token → Option Token → Role) (next : Option Token)
    (ts : List Token) : (marks role next ts).map Prod.fst = roles role next ts := by
  induction ts with
  | nil => rfl
  | cons t ts ih => rw [marks, List.map_cons, ih, roles]

theorem marks_append (role : Token → Option Token → Role) (next : Option Token)
    (ts us : List Token) :
    marks role next (ts ++ us) = marks role (us.head?.or next) ts ++ marks role next us := by
  induction ts with
  | nil => rfl
  | cons t ts ih =>
      rw [List.cons_append, marks, ih, marks, List.head?_append, Option.or_assoc]
      rfl

theorem marks_eq_append_cons {role : Token → Option Token → Role} {next : Option Token}
    {ts : List Token} {pre post : List (Role × Opening)} {mark : Role × Opening}
    (h : marks role next ts = pre ++ mark :: post) :
    ∃ pre' t post', ts = pre' ++ t :: post' ∧ pre = marks role (some t) pre' ∧
      mark = (role t (post'.head?.or next), t.opening) ∧ post = marks role next post' := by
  induction ts generalizing pre with
  | nil => simp [marks] at h
  | cons t ts ih =>
      rw [marks] at h
      cases pre with
      | nil =>
          obtain ⟨rfl, rfl⟩ := List.cons.inj h
          exact ⟨[], t, ts, rfl, rfl, rfl, rfl⟩
      | cons mark' pre =>
          obtain ⟨rfl, hmore⟩ := List.cons.inj h
          obtain ⟨pre', u, post', rfl, rfl, rfl, rfl⟩ := ih hmore
          refine ⟨t :: pre', u, post', rfl, ?_, rfl, rfl⟩
          rw [marks, List.head?_append, List.head?_cons]
          cases pre'.head? <;> rfl

/-- A token that opens or closes something of a sort and has no partner
among the tokens around it. -/
inductive Alone (role : Token → Option Token → Role) (cause : Text → Problem.Cause)
    (pre : List Token) (t : Token) (post : List Token) : Problem.Cause → Prop where
  | stray (closes : role t post.head? = .closes)
      (alone : ¬ HasOpener (roles role (some t) pre)) :
      Alone role cause pre t post (.near t.text)
  | leftOpen (opens : role t post.head? = .opens)
      (alone : ¬ HasCloser (roles role none post)) :
      Alone role cause pre t post (cause t.text)

theorem mem_unpaired_marks_iff {role : Token → Option Token → Role}
    {cause : Text → Problem.Cause} (ts : List Token) (p : Problem) :
    p ∈ unpaired cause [] (marks role none ts) ↔
      ∃ pre t post, ts = pre ++ t :: post ∧ p.position = t.opening.position ∧
        Alone role cause pre t post p.cause := by
  have hmet : ∀ rs, Met 0 rs ↔ HasOpener rs := by
    intro rs
    simp [Met]
  rw [mem_unpaired_iff, or_iff_right (not_onStack_nil _ _)]
  constructor
  · rintro ⟨pre, r, o, post, heq, hcases⟩
    obtain ⟨pre', t, post', rfl, rfl, hmark, rfl⟩ := marks_eq_append_cons heq
    obtain ⟨rfl, rfl⟩ := Prod.mk.inj hmark
    rw [Option.or_none] at hcases
    simp only [map_fst_marks, List.length_nil, hmet, ← hasCloser_iff] at hcases
    rcases hcases with ⟨hopens, rfl, halone⟩ | ⟨hcloses, rfl, halone⟩
    · exact ⟨pre', t, post', rfl, rfl, .leftOpen hopens halone⟩
    · exact ⟨pre', t, post', rfl, rfl, .stray hcloses halone⟩
  · rintro ⟨pre, t, post, rfl, hposition, halone⟩
    obtain ⟨position, c⟩ := p
    obtain rfl : position = t.opening.position := hposition
    refine ⟨marks role (some t) pre, role t post.head?, t.opening, marks role none post, ?_, ?_⟩
    · simp only [marks_append, marks, List.head?_cons, Option.or_none]
    · simp only [map_fst_marks, List.length_nil, hmet, ← hasCloser_iff]
      cases halone with
      | stray hcloses halone => exact Or.inr ⟨hcloses, rfl, halone⟩
      | leftOpen hopens halone => exact Or.inl ⟨hopens, rfl, halone⟩

/-! ## Calls of missing functions -/

/-- A bare name of a function that the level lacks, called. -/
structure Lacks (level : Level) (t : Token) (post : List Token) : Prop where
  level : level = .sql100
  bare : t.kind = .identifier
  name : t.text.sameFold "IIF".toList
  called : post.head?.any (·.kind = .leftParen)

def missingAt (level : Level) (t : Token) (next : Option Token) : List Problem :=
  if t.kind = .identifier ∧ level.lacksBuiltin t.text ∧ next.any (·.kind = .leftParen) then
    [⟨t.opening.position, .unknownFunction t.text⟩]
  else []

def missing (level : Level) : List Token → List Problem
  | [] => []
  | t :: ts => missingAt level t ts.head? ++ missing level ts

theorem hasIif_eq_false_iff (level : Level) : level.hasIif = false ↔ level = .sql100 := by
  cases level <;> decide

theorem mem_missingAt_iff (t : Token) (post : List Token) (p : Problem) :
    p ∈ missingAt level t post.head? ↔
      Lacks level t post ∧ p = ⟨t.opening.position, .unknownFunction t.text⟩ := by
  unfold missingAt
  constructor
  · intro h
    split at h
    · rename_i hlacks
      obtain ⟨hbare, hbuiltin, hcalled⟩ := hlacks
      simp only [Level.lacksBuiltin, Bool.and_eq_true, Bool.not_eq_true'] at hbuiltin
      exact ⟨⟨(hasIif_eq_false_iff level).mp hbuiltin.2, hbare, hbuiltin.1, hcalled⟩,
        List.mem_singleton.mp h⟩
    · cases h
  · rintro ⟨⟨hlevel, hbare, hname, hcalled⟩, rfl⟩
    have hbuiltin : level.lacksBuiltin t.text = true := by
      rw [Level.lacksBuiltin, hname, (hasIif_eq_false_iff level).mpr hlevel]
      rfl
    rw [if_pos ⟨hbare, hbuiltin, hcalled⟩]
    exact List.mem_singleton_self _

theorem mem_missing_iff (ts : List Token) (p : Problem) :
    p ∈ missing level ts ↔
      ∃ pre t post, ts = pre ++ t :: post ∧ Lacks level t post ∧
        p = ⟨t.opening.position, .unknownFunction t.text⟩ := by
  induction ts with
  | nil => simp [missing]
  | cons t ts ih =>
      rw [missing, List.mem_append, mem_missingAt_iff, ih]
      constructor
      · rintro (hhere | ⟨pre, u, post, rfl, hmore⟩)
        · exact ⟨[], t, ts, rfl, hhere⟩
        · exact ⟨t :: pre, u, post, rfl, hmore⟩
      · rintro ⟨pre, u, post, heq, hlacks⟩
        cases pre with
        | nil =>
            obtain ⟨rfl, rfl⟩ := List.cons.inj heq
            exact Or.inl hlacks
        | cons v pre =>
            obtain ⟨rfl, rfl⟩ := List.cons.inj heq
            exact Or.inr ⟨pre, u, post, rfl, hlacks⟩

/-! ## One step of the checks -/

theorem closeWith_eq (opens : List Opening) (here : Opening) (found : List Problem) :
    closeWith opens here found =
      (Role.closes.act here opens, Role.closes.report .near here opens ++ found) := by
  cases opens <;> rfl

theorem closeBatch_found (s : State) :
    s.closeBatch.found.Perm
      (s.parens.map (leftOpen .near) ++ (s.blocks.map (leftOpen .expectingEnd) ++ s.found)) := by
  simp only [State.closeBatch, List.reverse_append, List.map_reverse, List.reverse_reverse,
    List.append_assoc]
  exact List.perm_append_comm_assoc ..

/-- A step moves each stack as the tokens of its sort say, and finds what
they report. -/
theorem step_parts (level : Level) (s : State) (t : Token) (next : Option Token) :
    (s.step level t next).parens = (parenRole t next).act t.opening s.parens ∧
    (s.step level t next).blocks = (blockRole t next).act t.opening s.blocks ∧
    (s.step level t next).found.Perm
      ((parenRole t next).report .near t.opening s.parens ++
        ((blockRole t next).report .expectingEnd t.opening s.blocks ++
          (missingAt level t next ++ s.found))) := by
  have hnot : t.kind ≠ .keyword → ∀ word, t.isKeyword word = false := by
    intro hkind word
    rw [← Bool.not_eq_true]
    exact fun h => hkind (kind_of_isKeyword h)
  unfold State.step parenRole blockRole missingAt
  dsimp only
  by_cases hleft : t.kind = .leftParen
  · simp [hleft, hnot, Role.act, Role.report, Token.opening]
  by_cases hright : t.kind = .rightParen
  · simp [hright, hnot, closeWith_eq, Role.act, Role.report, Token.opening]
  by_cases hsep : t.kind = .batchSeparator
  · simpa [hsep, hnot, Role.act, Role.report] using ⟨rfl, rfl, closeBatch_found s⟩
  by_cases hkeyword : t.kind = .keyword
  · simp only [hkeyword, reduceCtorEq, if_false, false_and]
    by_cases hbegin : t.isKeyword "BEGIN" = true
    · cases hnext : next.any beginsStatement <;>
        simp [hbegin, Role.act, Role.report, Token.opening]
    by_cases hcase : t.isKeyword "CASE" = true
    · simp [hbegin, hcase, Role.act, Role.report, Token.opening]
    by_cases hend : t.isKeyword "END" = true
    · cases hnext : next.any (·.isWord "CONVERSATION") <;>
        simp [hbegin, hcase, hend, closeWith_eq, Role.act, Role.report, Token.opening]
    · simp [hbegin, hcase, hend, Role.act, Role.report]
  · by_cases hmissing : t.kind = .identifier ∧ level.lacksBuiltin t.text = true
    · cases hnext : next.any (·.kind = .leftParen) <;>
        simp [hnot hkeyword, hmissing, Role.act, Role.report, Token.opening]
    · have hnone : ¬ (t.kind = .identifier ∧ level.lacksBuiltin t.text = true ∧
          next.any (·.kind = .leftParen) = true) := fun h => hmissing ⟨h.1, h.2.1⟩
      simp only [hleft, hright, hsep, hnot hkeyword, if_neg hmissing, if_neg hnone, if_false,
        Bool.false_eq_true, Role.act, Role.report, List.nil_append, List.Perm.refl, true_and]

/-- Whether a token of that role can be reported. -/
def Role.pairs : Role → Bool
  | .opens | .closes => true
  | .ends | .plain => false

/-- A token plays a part of one sort at most. -/
theorem single_part (level : Level) (t : Token) (next : Option Token) :
    (parenRole t next).pairs.toNat + (blockRole t next).pairs.toNat +
      (missingAt level t next).length ≤ 1 := by
  by_cases hkeyword : t.kind = .keyword
  · have hparen : parenRole t next = .plain := by simp [parenRole, hkeyword]
    have hmissing : missingAt level t next = [] := by simp [missingAt, hkeyword]
    rw [hparen, hmissing]
    have hle := Bool.toNat_le (blockRole t next).pairs
    simpa [Role.pairs] using hle
  · have hnot : ∀ word, t.isKeyword word = false := by
      intro word
      rw [← Bool.not_eq_true]
      exact fun h => hkeyword (kind_of_isKeyword h)
    have hblock : (blockRole t next).pairs = false := by
      simp only [blockRole, hnot, Bool.false_eq_true, if_false]
      split <;> rfl
    rw [hblock]
    by_cases hbare : t.kind = .identifier
    · simp only [parenRole, missingAt, hbare, reduceCtorEq, if_false, Role.pairs]
      split <;> simp
    · simp only [missingAt, hbare, false_and, if_false]
      have hle := Bool.toNat_le (parenRole t next).pairs
      simpa using hle

/-! ## A run of the checks -/

/-- All that is found from a state on. -/
theorem found_perm (level : Level) (s : State) (ts : List Token) :
    ((s.run level ts).closeBatch).found.Perm
      (unpaired .near s.parens (marks parenRole none ts) ++
        (unpaired .expectingEnd s.blocks (marks blockRole none ts) ++
          (missing level ts ++ s.found))) := by
  induction ts generalizing s with
  | nil => exact closeBatch_found s
  | cons t ts ih =>
      obtain ⟨hparens, hblocks, hfound⟩ := step_parts level s t ts.head?
      have hmore := ih (s.step level t ts.head?)
      rw [hparens, hblocks] at hmore
      rw [State.run, marks, marks, unpaired, unpaired, missing, Option.or_none]
      rw [List.perm_iff_count] at hmore hfound ⊢
      intro p
      have hp := hmore p
      have hq := hfound p
      simp only [List.count_append] at hp hq ⊢
      omega

/-! ## Places -/

/-- The places that a state holds: of what is open and of what was
found. -/
def State.places (s : State) : List Position :=
  s.parens.map Opening.position ++ s.blocks.map Opening.position ++
    s.found.map Problem.position

theorem count_closeBatch_places (s : State) (x : Position) :
    s.closeBatch.places.count x = s.places.count x := by
  have hfound := ((closeBatch_found s).map Problem.position).count_eq x
  simp only [List.map_append, List.map_map, List.count_append] at hfound
  simp only [State.places, List.count_append, hfound]
  simp only [State.closeBatch, List.map_nil, List.count_nil, Nat.zero_add, Nat.add_assoc]
  rfl

/-- What a role does to a stack adds at most the place of its token. -/
theorem count_act_report (r : Role) (cause : Text → Problem.Cause) (here : Opening)
    (stack : List Opening) (x : Position) :
    ((r.act here stack).map Opening.position).count x +
        ((r.report cause here stack).map Problem.position).count x ≤
      (stack.map Opening.position).count x + r.pairs.toNat * [here.position].count x := by
  cases r with
  | opens => simp [Role.act, Role.report, Role.pairs, List.count_cons]
  | closes =>
      cases stack with
      | nil => simp [Role.act, Role.report, Role.pairs, stray]
      | cons o stack => simp [Role.act, Role.report, Role.pairs, List.count_cons]; omega
  | ends =>
      simp only [Role.act, Role.report, Role.pairs, List.map_map]
      exact Nat.le_of_eq (by simp; rfl)
  | plain => simp [Role.act, Role.report, Role.pairs]

/-- A step adds at most the place of its token. -/
theorem count_places_step (level : Level) (s : State) (t : Token) (next : Option Token)
    (x : Position) :
    (s.step level t next).places.count x ≤ s.places.count x + [t.opening.position].count x := by
  obtain ⟨hparens, hblocks, hfound⟩ := step_parts level s t next
  have hcount := (hfound.map Problem.position).count_eq x
  have hparen := count_act_report (parenRole t next) .near t.opening s.parens x
  have hblock := count_act_report (blockRole t next) .expectingEnd t.opening s.blocks x
  have hmissing : ((missingAt level t next).map Problem.position).count x =
      (missingAt level t next).length * [t.opening.position].count x := by
    unfold missingAt
    split <;> simp
  have hsingle := Nat.mul_le_mul_right ([t.opening.position].count x) (single_part level t next)
  simp only [List.map_append, List.count_append] at hcount
  simp only [State.places, hparens, hblocks, List.count_append, hcount, hmissing]
  rw [Nat.add_mul, Nat.add_mul, Nat.one_mul] at hsingle
  omega

theorem count_places_run (level : Level) (s : State) (ts : List Token) (x : Position) :
    (s.run level ts).places.count x ≤
      s.places.count x + (ts.map fun t => t.opening.position).count x := by
  induction ts generalizing s with
  | nil => exact Nat.le_refl _
  | cons t ts ih =>
      have hstep := count_places_step level s t ts.head? x
      have hrun := ih (s.step level t ts.head?)
      rw [State.run, List.map_cons, ← List.singleton_append, List.count_append]
      omega

/-! ## Reading order -/

end Structure

/-- Strictly before in reading order. -/
def Position.Before (p q : Position) : Prop :=
  p.line < q.line ∨ p.line = q.line ∧ p.column < q.column

theorem Position.Before.trans {p q r : Position} (hpq : p.Before q) (hqr : q.Before r) :
    p.Before r := by
  unfold Position.Before at *
  omega

theorem Position.before_next (p : Position) (c : Char) : p.Before (p.next c) := by
  unfold Position.Before Position.next
  split <;> simp

theorem Position.before_after (p : Position) {t : Text} (h : t ≠ []) : p.Before (p.after t) := by
  induction t generalizing p with
  | nil => exact absurd rfl h
  | cons c cs ih =>
      rw [Position.after_cons]
      by_cases hcs : cs = []
      · rw [hcs]
        exact p.before_next c
      · exact (p.before_next c).trans (ih _ hcs)

theorem Position.Before.ne {p q : Position} (h : p.Before q) : p ≠ q := by
  rintro rfl
  unfold Position.Before at h
  omega

theorem Position.le_iff (p q : Position) : p.le q = true ↔ p.Before q ∨ p = q := by
  obtain ⟨line, column⟩ := p
  obtain ⟨line', column'⟩ := q
  simp only [Position.le, Position.Before, Bool.or_eq_true, Bool.and_eq_true, decide_eq_true_eq,
    beq_iff_eq, Position.mk.injEq]
  omega

/-- Tokens that stand where their texts begin stand one behind the
other. -/
theorem pairwise_before_of_placedFrom {p : Position} {ts : List Token}
    (h : placedFrom p ts = ts) (hne : ∀ t ∈ ts, t.text ≠ []) :
    ts.Pairwise fun t u => t.opening.position.Before u.opening.position := by
  induction ts generalizing p with
  | nil => exact .nil
  | cons t ts ih =>
      have ht : t.position = some p := by
        rw [← (List.cons.inj h).1]
      obtain ⟨-, hmore⟩ := List.cons.inj h
      refine List.pairwise_cons.mpr ⟨fun u hu => ?_, ih hmore fun u hu =>
        hne u (List.mem_cons_of_mem _ hu)⟩
      obtain ⟨pre, post, rfl⟩ := List.append_of_mem hu
      rw [Token.opening, Token.opening, ht, position_of_placedFrom hmore, ← Position.after_append]
      exact p.before_after (by simp [hne t (List.mem_cons_self ..)])

namespace Structure

theorem mem_problems_iff (level : Level) (ts : List Token) (p : Problem) :
    p ∈ problems level ts ↔
      p ∈ unpaired .near [] (marks parenRole none (ts.filter isSignificant)) ∨
        p ∈ unpaired .expectingEnd [] (marks blockRole none (ts.filter isSignificant)) ∨
        p ∈ missing level (ts.filter isSignificant) := by
  have hfound := found_perm level .start (ts.filter isSignificant)
  rw [problems, List.mem_mergeSort, List.mem_reverse, hfound.mem_iff]
  simp [State.start]

/-- The problems of tokens that stand one behind the other do so as
well: no token gives rise to two of them, and they are sorted. -/
theorem problems_pairwise (level : Level) {ts : List Token}
    (h : ts.Pairwise fun t u => t.opening.position.Before u.opening.position) :
    (problems level ts).Pairwise fun p q => p.position.Before q.position := by
  let final := State.start.run level (ts.filter isSignificant)
  have htokens : ((ts.filter isSignificant).map fun t => t.opening.position).Nodup :=
    List.pairwise_map.mpr ((h.imp Position.Before.ne).sublist List.filter_sublist)
  have hfound : (final.closeBatch.found.map Problem.position).Nodup := by
    rw [List.nodup_iff_count]
    intro x
    have hplaces : (final.closeBatch.found.map Problem.position).count x ≤
        final.closeBatch.places.count x := by
      rw [State.places, List.count_append]
      omega
    have hrun := count_places_run level .start (ts.filter isSignificant) x
    have hone := List.nodup_iff_count.mp htokens x
    rw [count_closeBatch_places] at hplaces
    rw [show State.start.places = [] from rfl, List.count_nil, Nat.zero_add] at hrun
    exact Nat.le_trans hplaces (Nat.le_trans hrun hone)
  have hperm : (problems level ts).Perm final.closeBatch.found :=
    (List.mergeSort_perm _ _).trans (List.reverse_perm _)
  have hne : (problems level ts).Pairwise fun p q => p.position ≠ q.position :=
    List.pairwise_map.mp ((hperm.map Problem.position).nodup_iff.mpr hfound)
  have hsorted : (problems level ts).Pairwise fun p q => p.position.le q.position = true := by
    refine List.pairwise_mergeSort (fun p q r hpq hqr => ?_) (fun p q => ?_) _
    · rw [Position.le_iff] at hpq hqr ⊢
      grind [Position.Before.trans]
    · simp only [Position.le, Bool.or_eq_true, Bool.and_eq_true, decide_eq_true_eq, beq_iff_eq]
      omega
  refine hsorted.imp₂ (fun p q hle hdiff => ?_) hne
  exact ((Position.le_iff _ _).mp hle).resolve_right hdiff

/-- A token that is reported, with the tokens that count around it: it
opens or closes a parenthesis or a block and has no partner in its batch,
or it calls a function that the level lacks. -/
inductive Fault (level : Level) (pre : List Token) (t : Token) (post : List Token) :
    Problem.Cause → Prop where
  | paren {cause : Problem.Cause} (alone : Alone parenRole .near pre t post cause) :
      Fault level pre t post cause
  | block {cause : Problem.Cause} (alone : Alone blockRole .expectingEnd pre t post cause) :
      Fault level pre t post cause
  | missing (lacks : Lacks level t post) : Fault level pre t post (.unknownFunction t.text)

theorem mem_problems_iff_fault (level : Level) (ts : List Token) (p : Problem) :
    p ∈ problems level ts ↔
      ∃ pre t post, ts.filter isSignificant = pre ++ t :: post ∧
        p.position = t.opening.position ∧ Fault level pre t post p.cause := by
  rw [mem_problems_iff, mem_unpaired_marks_iff, mem_unpaired_marks_iff, mem_missing_iff]
  constructor
  · rintro (⟨pre, t, post, heq, hp, halone⟩ | ⟨pre, t, post, heq, hp, halone⟩ |
      ⟨pre, t, post, heq, hlacks, rfl⟩)
    · exact ⟨pre, t, post, heq, hp, .paren halone⟩
    · exact ⟨pre, t, post, heq, hp, .block halone⟩
    · exact ⟨pre, t, post, heq, rfl, .missing hlacks⟩
  · rintro ⟨pre, t, post, heq, hp, hfault⟩
    obtain ⟨position, cause⟩ := p
    cases hfault with
    | paren halone => exact .inl ⟨pre, t, post, heq, hp, halone⟩
    | block halone => exact .inr (.inl ⟨pre, t, post, heq, hp, halone⟩)
    | missing hlacks =>
        obtain rfl := hp
        exact .inr (.inr ⟨pre, t, post, heq, hlacks, rfl⟩)

/-- Nothing is reported if and only if both sorts of pairs are balanced in
every batch and nothing is called that the level lacks. -/
theorem problems_eq_nil_iff_balanced (level : Level) (ts : List Token) :
    problems level ts = [] ↔
      (∀ batch ∈ (roles parenRole none (ts.filter isSignificant)).splitOn .ends,
        Balanced batch) ∧
      (∀ batch ∈ (roles blockRole none (ts.filter isSignificant)).splitOn .ends,
        Balanced batch) ∧
      ¬ ∃ pre t post, ts.filter isSignificant = pre ++ t :: post ∧ Lacks level t post := by
  have hmissing : (∀ p, p ∉ missing level (ts.filter isSignificant)) ↔
      ¬ ∃ pre t post, ts.filter isSignificant = pre ++ t :: post ∧ Lacks level t post := by
    constructor
    · rintro hnone ⟨pre, t, post, heq, hlacks⟩
      exact hnone _ ((mem_missing_iff _ _).mpr ⟨pre, t, post, heq, hlacks, rfl⟩)
    · rintro hnone p hp
      obtain ⟨pre, t, post, heq, hlacks, -⟩ := (mem_missing_iff _ _).mp hp
      exact hnone ⟨pre, t, post, heq, hlacks⟩
  have hparens : unpaired .near [] (marks parenRole none (ts.filter isSignificant)) = [] ↔ _ :=
    unpaired_eq_nil_iff _
  have hblocks : unpaired .expectingEnd [] (marks blockRole none (ts.filter isSignificant)) = [] ↔
      _ := unpaired_eq_nil_iff _
  rw [map_fst_marks] at hparens hblocks
  rw [← hmissing, ← hparens, ← hblocks]
  simp only [List.eq_nil_iff_forall_not_mem, mem_problems_iff, not_or, forall_and]

/-- Levels differ in the first alone. -/
theorem problems_of_ne_sql100 (hlevel : level ≠ .sql100) (ts : List Token) :
    problems level ts = problems .sql110 ts := by
  have hlacks : level.lacksBuiltin = Level.sql110.lacksBuiltin := by
    cases level with
    | sql100 => exact absurd rfl hlevel
    | _ => rfl
  have hrun : ∀ (us : List Token) (s : State), s.run level us = s.run .sql110 us := by
    intro us
    induction us with
    | nil => exact fun _ => rfl
    | cons u us ih =>
        intro s
        rw [State.run, State.run, ih, State.step, State.step, hlacks]
  rw [problems, problems, hrun]

/-- The problems of a script that can be read. They are those of the
tokens at fault, each at the place of its token, in strictly increasing
order. So there are none if and only if both sorts of pairs are balanced
in every batch and no function is called that the level lacks; and from
the second level on they are the same. -/
theorem problems_of_read (level : Level) {source : Text} {raw : List Token}
    (h : tokensFrom .start source = .ok raw) :
    let script := Script.parse level source
    let tokens := script.body.filter isSignificant
    (∀ p, p ∈ script.problems ↔
      ∃ pre t post, tokens = pre ++ t :: post ∧ t.position = some p.position ∧
        Fault level pre t post p.cause) ∧
    (script.problems.Pairwise fun p q => p.position.Before q.position) ∧
    (script.problems = [] ↔
      (∀ batch ∈ (roles parenRole none tokens).splitOn .ends, Balanced batch) ∧
      (∀ batch ∈ (roles blockRole none tokens).splitOn .ends, Balanced batch) ∧
      ¬ ∃ pre t post, tokens = pre ++ t :: post ∧ Lacks level t post) ∧
    (level ≠ .sql100 → script = Script.parse .sql110 source) := by
  intro script tokens
  have hparse : ∀ level, Script.parse level source =
      ⟨markBatches true raw ++ [Script.endToken source],
        problems level (markBatches true raw)⟩ := by
    intro level
    rw [Script.parse, h]
  have hproblems : script.problems = problems level (markBatches true raw) := parse_problems h
  have htokens : tokens = (markBatches true raw).filter isSignificant := by
    simp only [tokens, script, hparse, Script.body, List.dropLast_concat]
  have hplaced := placedFrom_body h
  refine ⟨fun p => ?_, ?_, ?_, fun hlevel => ?_⟩
  · rw [hproblems, htokens, mem_problems_iff_fault]
    refine exists_congr fun pre => exists_congr fun t => exists_congr fun post =>
      and_congr_right fun heq => and_congr_left fun _ => ?_
    have ht : t ∈ markBatches true raw := by
      refine List.mem_of_mem_filter (p := isSignificant) ?_
      rw [heq]
      exact List.mem_append_right _ (List.mem_cons_self ..)
    obtain ⟨before, after, hsplit⟩ := List.append_of_mem ht
    rw [hsplit] at hplaced
    rw [Token.opening, position_of_placedFrom hplaced, Option.getD_some, Option.some.injEq, eq_comm]
  · rw [hproblems]
    exact problems_pairwise level
      (pairwise_before_of_placedFrom hplaced fun t ht => (mem_body h ht).2)
  · rw [hproblems, htokens]
    exact problems_eq_nil_iff_balanced level _
  · rw [show script = _ from hparse level, hparse .sql110, problems_of_ne_sql100 hlevel]

/-- `CASE` and the parenthesis are left open at `GO`, `END` closes nothing
behind it, and the function is not there yet. -/
def acrossBatches : Text := "CASE (\nGO\nEND IIF (1)".toList

theorem problems_of_read_acrossBatches :
    (∀ p ∈ [(⟨⟨1, 1⟩, .expectingEnd "CASE".toList⟩ : Problem), ⟨⟨1, 6⟩, .near "(".toList⟩,
      ⟨⟨3, 1⟩, .near "END".toList⟩, ⟨⟨3, 5⟩, .unknownFunction "IIF".toList⟩],
      ∃ pre t post,
        (Script.parse .sql100 acrossBatches).body.filter isSignificant = pre ++ t :: post ∧
        t.position = some p.position ∧ Fault .sql100 pre t post p.cause) ∧
    (Script.parse .sql100 acrossBatches).problems.length = 4 ∧
    (Script.parse .sql100 acrossBatches).problems.Pairwise fun p q =>
      p.position.Before q.position := by
  obtain ⟨raw, hraw⟩ : ∃ raw, tokensFrom .start acrossBatches = .ok raw := by
    cases h : tokensFrom .start acrossBatches with
    | ok raw => exact ⟨raw, rfl⟩
    | error e =>
        have hsome : (tokensFrom .start acrossBatches).toOption.isSome = true := by
          decide +kernel
        rw [h] at hsome
        cases hsome
  obtain ⟨hfaults, hordered, -⟩ := problems_of_read .sql100 hraw
  have hproblems : (Script.parse .sql100 acrossBatches).problems =
      problems .sql100 (Script.parse .sql100 acrossBatches).body := by
    rw [Script.body_parse, Script.parse, hraw]
  refine ⟨fun p hp => (hfaults p).mp ?_, ?_, hordered⟩
  · rw [hproblems, problems, List.mem_mergeSort]
    revert p
    decide +kernel
  · rw [hproblems, problems, List.length_mergeSort]
    decide +kernel

end Structure

end Tsql
