import Mathlib.Data.List.Sort
import Tsql.Proofs.Expansion
import Tsql.Proofs.GuardReading
import Tsql.Proofs.ProcedureNames
import Tsql.Proofs.Renaming
import Tsql.Proofs.StructureProblems

/-!
# White space has no say

Scripts are often laid out anew. `solid` leaves of a token sequence what
no layout can change: the tokens that are not white space, and of each its
kind and text. What the checks find and what the passes do depends on that
alone.

For a pass this is shown with one run at a time: erasing commutes with
every look ahead, so with each decision (`Heedless`), and so with the run
(`traceFrom_solid`). A run on a script and the run on what is solid in it
go at a different pace, and the cursors stand at different places; what
they have ahead is the same.

Problems are told in the order of their places, and places do change with
the layout. What stays is the number of the token at fault (`numbered`).
-/

namespace Tsql

/-! ## Erasing -/

def Token.placeless (t : Token) : Token := { t with position := none }

/-- The tokens that are no white space, without their places. -/
def solid (ts : List Token) : List Token :=
  (ts.filter (!·.isWhitespace)).map Token.placeless

@[simp] theorem Token.text_placeless (t : Token) : t.placeless.text = t.text := rfl

@[simp] theorem Token.isWhitespace_placeless (t : Token) :
    t.placeless.isWhitespace = t.isWhitespace := rfl

@[simp] theorem Token.isKeyword_placeless (t : Token) (word : String) :
    t.placeless.isKeyword word = t.isKeyword word := rfl

@[simp] theorem Token.isIdentifier_placeless (t : Token) :
    t.placeless.isIdentifier = t.isIdentifier := rfl

theorem map_face_placeless (ts : List Token) :
    (ts.map Token.placeless).map Token.face = ts.map Token.face := by
  rw [List.map_map]
  rfl

theorem filter_placeless {p : Token → Bool} (hp : ∀ t, p t.placeless = p t) (ts : List Token) :
    (ts.map Token.placeless).filter p = (ts.filter p).map Token.placeless := by
  rw [List.filter_map]
  congr 2
  exact funext hp

theorem solid_cons_of_isWhitespace {t : Token} (ht : t.isWhitespace = true) (ts : List Token) :
    solid (t :: ts) = solid ts := by
  simp [solid, ht]

theorem solid_cons_of_not_isWhitespace {t : Token} (ht : t.isWhitespace = false) (ts : List Token) :
    solid (t :: ts) = t.placeless :: solid ts := by
  simp [solid, ht]

theorem solid_append (ts us : List Token) : solid (ts ++ us) = solid ts ++ solid us := by
  simp [solid]

/-- The place of a token is not part of what is solid. -/
theorem solid_placeless_cons (t : Token) (ts : List Token) :
    solid (t.placeless :: ts) = solid (t :: ts) := by
  cases ht : t.isWhitespace with
  | true => rw [solid_cons_of_isWhitespace ht, solid_cons_of_isWhitespace (t := t.placeless) ht]
  | false =>
      rw [solid_cons_of_not_isWhitespace ht, solid_cons_of_not_isWhitespace (t := t.placeless) ht]
      rfl

/-- Nothing is left to erase. -/
theorem filter_solid (ts : List Token) : (solid ts).filter (!·.isWhitespace) = solid ts := by
  rw [solid, filter_placeless fun t => rfl, List.filter_filter]
  simp

/-- Taking goes on behind the same solid tokens. -/
theorem behind_solid (n : Nat) (ts : List Token) : behind n (solid ts) = solid (behind n ts) := by
  induction ts generalizing n with
  | nil => cases n <;> rfl
  | cons t ts ih =>
      cases n with
      | zero => rw [behind_zero, behind_zero]
      | succ n =>
          cases ht : t.isWhitespace with
          | true => rw [solid_cons_of_isWhitespace ht, behind, if_pos ht, ih]
          | false =>
              rw [solid_cons_of_not_isWhitespace ht, behind, behind, Token.isWhitespace_placeless,
                ht, if_neg Bool.false_ne_true, if_neg Bool.false_ne_true, ih]

/-! ## What the checks find -/

namespace Structure

variable {level : Level}

/-- A role that does not look at places. -/
def Placeless (role : Token → Option Token → Role) : Prop :=
  ∀ t next, role t.placeless (next.map Token.placeless) = role t next

theorem parenRole_placeless : Placeless parenRole := fun _ next => by cases next <;> rfl

theorem blockRole_placeless : Placeless blockRole := fun _ next => by cases next <;> rfl

theorem Placeless.roles {role : Token → Option Token → Role} (h : Placeless role)
    (next : Option Token) (ts : List Token) :
    roles role (next.map Token.placeless) (ts.map Token.placeless) = roles role next ts := by
  induction ts with
  | nil => rfl
  | cons t ts ih =>
      have hnext : (ts.map Token.placeless).head?.or (next.map Token.placeless) =
          (ts.head?.or next).map Token.placeless := by
        cases ts <;> rfl
      rw [List.map_cons, Structure.roles, Structure.roles, ih, hnext, h]

theorem Placeless.alone {role : Token → Option Token → Role} (h : Placeless role)
    {cause : Text → Problem.Cause} {pre post : List Token} {t : Token} {c : Problem.Cause} :
    Alone role cause (pre.map Token.placeless) t.placeless (post.map Token.placeless) c ↔
      Alone role cause pre t post c := by
  have hrole : role t.placeless (post.map Token.placeless).head? = role t post.head? := by
    rw [List.head?_map, h]
  have hpre := h.roles (some t) pre
  have hpost := h.roles none post
  constructor
  · rintro (⟨hcloses, halone⟩ | ⟨hopens, halone⟩)
    · exact .stray (hrole ▸ hcloses) (hpre ▸ halone)
    · exact .leftOpen (hrole ▸ hopens) (hpost ▸ halone)
  · rintro (⟨hcloses, halone⟩ | ⟨hopens, halone⟩)
    · exact .stray (t := t.placeless) (hrole ▸ hcloses) (hpre ▸ halone)
    · exact .leftOpen (t := t.placeless) (hrole ▸ hopens) (hpost ▸ halone)

theorem lacks_placeless {t : Token} {post : List Token} :
    Lacks level t.placeless (post.map Token.placeless) ↔ Lacks level t post := by
  have hcalled : (post.map Token.placeless).head?.any (·.kind = .leftParen) =
      post.head?.any (·.kind = .leftParen) := by
    cases post <;> rfl
  constructor
  · rintro ⟨hlevel, hbare, hname, hcall⟩
    exact ⟨hlevel, hbare, hname, hcalled ▸ hcall⟩
  · rintro ⟨hlevel, hbare, hname, hcall⟩
    exact ⟨hlevel, hbare, hname, hcalled ▸ hcall⟩

/-- Whether and how a token is at fault does not depend on places. -/
theorem fault_placeless {pre post : List Token} {t : Token} {cause : Problem.Cause} :
    Fault level (pre.map Token.placeless) t.placeless (post.map Token.placeless) cause ↔
      Fault level pre t post cause := by
  constructor
  · rintro (halone | halone | hlacks)
    · exact .paren (parenRole_placeless.alone.mp halone)
    · exact .block (blockRole_placeless.alone.mp halone)
    · exact .missing (lacks_placeless.mp hlacks)
  · rintro (halone | halone | hlacks)
    · exact .paren (parenRole_placeless.alone.mpr halone)
    · exact .block (blockRole_placeless.alone.mpr halone)
    · exact .missing (t := t.placeless) (lacks_placeless.mpr hlacks)

/-- The places of the tokens that the checks look at. -/
def placesOf (ts : List Token) : List Position :=
  (ts.filter isSignificant).map fun t => t.opening.position

/-- What the problems of a token sequence are, and the number of the token
that each is about. -/
def numbered (level : Level) (ts : List Token) : List (Nat × Problem.Cause) :=
  (problems level ts).map fun p => ((placesOf ts).idxOf p.position, p.cause)

/-- The tokens that the checks look at are solid. -/
theorem filter_isSignificant_solid (ts : List Token) :
    (solid ts).filter isSignificant = (ts.filter isSignificant).map Token.placeless := by
  rw [solid, filter_placeless fun t => rfl, List.filter_filter]
  congr 1
  refine List.filter_congr fun t _ => ?_
  cases ht : t.isWhitespace <;> simp [isSignificant, ht]

/-- What stands before has the smaller number. -/
theorem idxOf_lt_idxOf {places : List Position} (h : places.Pairwise Position.Before)
    {x y : Position} (hx : x ∈ places) (hy : y ∈ places) (hxy : x.Before y) :
    places.idxOf x < places.idxOf y := by
  have hget := List.pairwise_iff_getElem.mp h
  have hi := List.idxOf_lt_length_iff.mpr hx
  have hj := List.idxOf_lt_length_iff.mpr hy
  rcases Nat.lt_trichotomy (places.idxOf x) (places.idxOf y) with hlt | heq | hgt
  · exact hlt
  · exact absurd ((List.idxOf_inj hx).mp heq) hxy.ne
  · have hyx := hget _ _ hj hi hgt
    rw [List.getElem_idxOf, List.getElem_idxOf] at hyx
    exact absurd rfl (hxy.trans hyx).ne

section Ordered

variable {ts : List Token}
  (h : ts.Pairwise fun t u => t.opening.position.Before u.opening.position)

include h

/-- A token is found by its place. -/
theorem idxOf_placesOf {pre post : List Token} {t : Token}
    (heq : ts.filter isSignificant = pre ++ t :: post) :
    (placesOf ts).idxOf t.opening.position = pre.length := by
  have hsig := h.sublist (List.filter_sublist (p := isSignificant))
  rw [heq, List.pairwise_append] at hsig
  have hpre : t.opening.position ∉ pre.map fun u => u.opening.position := by
    intro hmem
    obtain ⟨u, hu, hplace⟩ := List.mem_map.mp hmem
    exact (hsig.2.2 u hu t List.mem_cons_self).ne hplace
  rw [placesOf, heq, List.map_append, List.idxOf_append_of_notMem hpre, List.map_cons,
    List.idxOf_cons_self, List.length_map, Nat.add_zero]

theorem mem_numbered_iff (i : Nat) (cause : Problem.Cause) :
    (i, cause) ∈ numbered level ts ↔
      ∃ pre t post, (solid ts).filter isSignificant = pre ++ t :: post ∧ pre.length = i ∧
        Fault level pre t post cause := by
  rw [filter_isSignificant_solid]
  constructor
  · intro hmem
    obtain ⟨p, hp, hpair⟩ := List.mem_map.mp hmem
    obtain ⟨hindex, rfl⟩ := Prod.mk.inj hpair
    obtain ⟨pre, t, post, heq, hplace, hfault⟩ := (mem_problems_iff_fault level ts p).mp hp
    rw [hplace, idxOf_placesOf h heq] at hindex
    refine ⟨pre.map Token.placeless, t.placeless, post.map Token.placeless, ?_, ?_,
      fault_placeless.mpr hfault⟩
    · rw [heq, List.map_append, List.map_cons]
    · rw [List.length_map, hindex]
  · rintro ⟨pre', t', post', heq, hindex, hfault⟩
    obtain ⟨pre, more, hsplit, rfl, hmore⟩ := List.map_eq_append_iff.mp heq
    obtain ⟨t, post, rfl, rfl, rfl⟩ := List.map_eq_cons_iff.mp hmore
    refine List.mem_map.mpr ⟨⟨t.opening.position, cause⟩, ?_, ?_⟩
    · exact (mem_problems_iff_fault level ts _).mpr
        ⟨pre, t, post, hsplit, rfl, fault_placeless.mp hfault⟩
    · rw [idxOf_placesOf h hsplit, ← hindex, List.length_map]

/-- Problems are in the order of the tokens that they are about. -/
theorem numbered_pairwise :
    (numbered level ts).Pairwise fun a b => a.1 < b.1 := by
  have hplaces : (placesOf ts).Pairwise Position.Before :=
    List.pairwise_map.mpr (h.sublist List.filter_sublist)
  have hmem : ∀ p ∈ problems level ts, p.position ∈ placesOf ts := by
    intro p hp
    obtain ⟨pre, t, post, heq, hplace, -⟩ := (mem_problems_iff_fault level ts p).mp hp
    rw [hplace, placesOf, heq]
    exact List.mem_map_of_mem (List.mem_append_right _ List.mem_cons_self)
  exact List.pairwise_map.mpr ((problems_pairwise level h).imp_of_mem fun hp hq hbefore =>
    idxOf_lt_idxOf hplaces (hmem _ hp) (hmem _ hq) hbefore)

end Ordered

/-- The problems depend on what is solid, their places apart. -/
theorem numbered_congr {ts us : List Token}
    (hts : ts.Pairwise fun t u => t.opening.position.Before u.opening.position)
    (hus : us.Pairwise fun t u => t.opening.position.Before u.opening.position)
    (h : solid ts = solid us) : numbered level ts = numbered level us := by
  have : Std.Irrefl fun a b : Nat × Problem.Cause => a.1 < b.1 := ⟨fun a => Nat.lt_irrefl a.1⟩
  have : Std.Antisymm fun a b : Nat × Problem.Cause => a.1 < b.1 :=
    ⟨fun a b hab hba => absurd hab (Nat.lt_asymm hba)⟩
  refine List.Pairwise.eq_of_mem_iff (numbered_pairwise hts) (numbered_pairwise hus) ?_
  rintro ⟨i, cause⟩
  rw [mem_numbered_iff hts, mem_numbered_iff hus, h]

/-- What is wrong with scripts that are laid out differently. -/
theorem causes_parse_congr {a b : Text} {ra rb : List Token} (ha : tokensFrom .start a = .ok ra)
    (hb : tokensFrom .start b = .ok rb)
    (h : solid (Script.parse level a).body = solid (Script.parse level b).body) :
    (Script.parse level a).problems.map Problem.cause =
      (Script.parse level b).problems.map Problem.cause := by
  have hordered : ∀ {source : Text} {raw : List Token}, tokensFrom .start source = .ok raw →
      (Script.parse level source).body = markBatches true raw ∧
      (markBatches true raw).Pairwise fun t u => t.opening.position.Before u.opening.position := by
    intro source raw hraw
    refine ⟨?_, pairwise_before_of_placedFrom (placedFrom_body hraw) fun t ht =>
      (mem_body hraw ht).2⟩
    rw [Script.body_parse, hraw]
  obtain ⟨hbodya, hpairwisea⟩ := hordered ha
  obtain ⟨hbodyb, hpairwiseb⟩ := hordered hb
  rw [hbodya, hbodyb] at h
  have hcauses : ∀ ts : List Token,
      (problems level ts).map Problem.cause = (numbered level ts).map Prod.snd := by
    intro ts
    rw [numbered, List.map_map]
    rfl
  rw [parse_problems ha, parse_problems hb, hcauses, hcauses,
    numbered_congr hpairwisea hpairwiseb h]

end Structure

/-! ## What the passes do -/

theorem upcoming_solid {t : Token} (ht : t.isWhitespace = false) (ts : List Token) :
    (Cursor.start (solid (t :: ts))).upcoming =
      (Cursor.start (t :: ts)).upcoming.map Token.placeless := by
  rw [solid_cons_of_not_isWhitespace ht]
  exact filter_solid ts

namespace Cursor

variable {c c' : Cursor}

theorem peek_placeless (h : c'.upcoming = c.upcoming.map Token.placeless) (n : Nat) :
    c'.peek (n + 1) = (c.peek (n + 1)).map Token.placeless := by
  rw [peek, peek, h, List.getElem?_map]

theorem view_placeless (h : c'.upcoming = c.upcoming.map Token.placeless) (n : Nat) :
    c'.view (n + 1) = (c.view (n + 1)).map Token.placeless := by
  rw [view, view, h, List.map_drop]

end Cursor

theorem QualifiedName.peek_placeless {c c' : Cursor}
    (h : c'.upcoming = c.upcoming.map Token.placeless) (n : Nat) :
    QualifiedName.peek c' (n + 1) = QualifiedName.peek c (n + 1) := by
  refine QualifiedName.read_congr ?_
  rw [Cursor.view_placeless h, map_face_placeless]

namespace Signature

theorem afterParameters_placeless (depth : Nat) (ts : List Token) :
    afterParameters depth (ts.map Token.placeless) =
      (afterParameters depth ts).map (·.map Token.placeless) := by
  induction ts generalizing depth with
  | nil => rfl
  | cons t ts ih =>
      simp only [List.map_cons, afterParameters, ih]
      change (if t.kind = .leftParen then _ else if t.kind = .rightParen then _ else _) = _
      split
      · rfl
      · split
        · cases depth <;> rfl
        · rfl

theorem ofReturns_placeless (ts : List Token) :
    ofReturns (ts.map Token.placeless) = ofReturns ts := by
  match ts with
  | [] | [_] | [_, _] | _ :: _ :: _ :: _ => rfl

/-- The sort of a function is told by kinds and texts. -/
theorem classify_placeless (ts : List Token) : classify (ts.map Token.placeless) = classify ts := by
  cases ts with
  | nil => rfl
  | cons t ts =>
      rw [List.map_cons, classify, classify, afterParameters_placeless]
      change (if t.kind = .leftParen then _ else _) = _
      cases afterParameters 0 ts with
      | none => rfl
      | some rest => simp only [Option.map_some, ofReturns_placeless]

theorem peek_placeless {c c' : Cursor} (h : c'.upcoming = c.upcoming.map Token.placeless)
    (n : Nat) : Signature.peek c' (n + 1) = Signature.peek c (n + 1) := by
  rw [Signature.peek, Signature.peek, Cursor.view_placeless h, classify_placeless]

end Signature

namespace Pass

/-- A decision, white space and places erased from what it puts in. -/
def Decision.solid (d : Decision) : Decision := { d with emitted := Tsql.solid d.emitted }

/-- A run, white space and places erased from what it puts in. -/
def Trace.solid (trace : Trace) : Trace := { trace with emitted := Tsql.solid trace.emitted }

/-- A way of deciding that leaves white space alone and takes no notice of
it. -/
structure Heedless (choose : List Token → Except Error Decision) : Prop where
  white (t : Token) (ts : List Token) (ht : t.isWhitespace = true) :
    choose (t :: ts) = .ok (.keep t)
  solid (t : Token) (ts : List Token) (ht : t.isWhitespace = false) :
    (choose (Tsql.solid (t :: ts))).map Decision.solid = (choose (t :: ts)).map Decision.solid

/-- Results that are the same under a function. -/
theorem map_eq_map {ε α β : Type} {f : α → β} {x y : Except ε α} (h : x.map f = y.map f) :
    (∃ e, x = .error e ∧ y = .error e) ∨ ∃ a b, x = .ok a ∧ y = .ok b ∧ f a = f b := by
  cases x with
  | error e =>
      cases y with
      | error e' => exact Or.inl ⟨e, rfl, congrArg Except.error (Except.error.inj h).symm⟩
      | ok b => cases h
  | ok a =>
      cases y with
      | error e' => cases h
      | ok b => exact Or.inr ⟨a, b, rfl, rfl, Except.ok.inj h⟩

section Runs

variable {pass : Pass} {choose : List Token → Except Error Decision}

/-- The trace of a run that begins with a decision. -/
def Decision.before (d : Decision) (rest : Trace) : Trace :=
  ⟨d.emitted ++ rest.emitted, d.asked ++ rest.asked, rest.reports⟩

theorem map_solid_before (d : Decision) (rest : Except Error Trace) :
    (rest.map d.before).map Trace.solid = (rest.map Trace.solid).map d.solid.before := by
  cases rest with
  | error e => rfl
  | ok trace =>
      simp only [Except.map, Decision.before, Trace.solid, Decision.solid, solid_append]

theorem traceFrom_of_choose_ok (hsees : pass.Sees choose) {c : Cursor} {t : Token}
    {ts : List Token} (hc : c.ahead = t :: ts) {d : Decision} (hd : choose (t :: ts) = .ok d) :
    pass.traceFrom c = (pass.traceFrom (d.move c).advance).map d.before := by
  rw [traceFrom_cons hc, hsees c t ts hc, hd]
  rfl

theorem traceFrom_of_choose_error (hsees : pass.Sees choose) {c : Cursor} {t : Token}
    {ts : List Token} (hc : c.ahead = t :: ts) {e : Error} (he : choose (t :: ts) = .error e) :
    pass.traceFrom c = .error e := by
  rw [traceFrom_cons hc, hsees c t ts hc, he]
  rfl

/-- A run over what is solid does what the run over all tokens does. -/
theorem traceFrom_solid (hsees : pass.Sees choose) (h : Heedless choose) (c c' : Cursor)
    (hahead : c'.ahead = solid c.ahead) (hdiagnostics : c'.diagnostics = c.diagnostics) :
    (pass.traceFrom c').map Trace.solid = (pass.traceFrom c).map Trace.solid := by
  generalize htokens : c.ahead = tokens at hahead
  induction hn : tokens.length using Nat.strongRecOn generalizing tokens c c' with
  | ind n ih =>
      cases tokens with
      | nil => rw [traceFrom_nil hahead, traceFrom_nil htokens, hdiagnostics]
      | cons t ts =>
          rw [List.length_cons] at hn
          have hnext : ∀ d : Decision, (d.move c).advance.ahead = behind d.consumed ts :=
            fun d => ahead_move_advance d htokens
          cases ht : t.isWhitespace with
          | true =>
              -- only the run over all tokens moves on
              let d := Decision.keep t
              have hmore := ih ts.length (by omega) (d.move c).advance c'
                (by rw [diagnostics_move_advance, hdiagnostics]; exact (List.append_nil _).symm)
                ts ((hnext d).trans (behind_zero ts))
                (by rw [hahead, solid_cons_of_isWhitespace ht]) rfl
              have hnothing : d.solid.before = id := by
                have hnone : solid [t] = [] := solid_cons_of_isWhitespace ht []
                funext rest
                simp only [d, Decision.before, Decision.solid, Decision.keep, hnone,
                  List.nil_append, id]
              rw [traceFrom_of_choose_ok hsees htokens (h.white t ts ht), map_solid_before,
                hnothing, hmore]
              cases pass.traceFrom (d.move c).advance <;> rfl
          | false =>
              have hchoice := h.solid t ts ht
              rw [solid_cons_of_not_isWhitespace ht] at hahead hchoice
              rcases map_eq_map hchoice with ⟨e, he', he⟩ | ⟨d', d, hd', hd, hsame⟩
              · rw [traceFrom_of_choose_error hsees htokens he,
                  traceFrom_of_choose_error hsees hahead he']
              · obtain ⟨-, hconsumed, hreports, -⟩ := Decision.mk.inj hsame
                have hshorter := length_behind_le d.consumed ts
                rw [traceFrom_of_choose_ok hsees htokens hd,
                  traceFrom_of_choose_ok hsees hahead hd', map_solid_before, map_solid_before,
                  hsame]
                congr 1
                refine ih (behind d.consumed ts).length (by omega) _ _ ?_ _ (hnext d) ?_ rfl
                · rw [diagnostics_move_advance, diagnostics_move_advance, hdiagnostics, hreports]
                · rw [ahead_move_advance d' hahead, hconsumed, behind_solid]

/-- Runs over tokens that differ in white space and places only. -/
theorem traceFrom_congr (hsees : pass.Sees choose) (h : Heedless choose) {ts us : List Token}
    (hsolid : solid ts = solid us) :
    (pass.traceFrom (.start ts)).map Trace.solid =
      (pass.traceFrom (.start us)).map Trace.solid := by
  rw [← traceFrom_solid hsees h (.start ts) (.start (solid ts)) rfl rfl, hsolid,
    traceFrom_solid hsees h (.start us) (.start (solid us)) rfl rfl]

end Runs

/-! ## The passes of the library -/

theorem Decision.solid_keep_placeless (t : Token) :
    (Decision.keep t.placeless).solid = (Decision.keep t).solid := by
  simp only [Decision.solid, Decision.keep, solid_placeless_cons]

theorem heedless_identity : Heedless fun ts => .ok ⟨ts.take 1, 0, [], []⟩ where
  white _ _ _ := rfl
  solid t ts ht := by
    rw [solid_cons_of_not_isWhitespace ht]
    exact congrArg Except.ok (Decision.solid_keep_placeless t)

theorem heedless_renameChoice (f : Text → Text) : Heedless (renameChoice f) where
  white t ts ht := by
    have hname : t.isIdentifier = false := by
      cases hkind : t.kind <;> simp [Token.isWhitespace, Token.isIdentifier, hkind] at ht ⊢
    simp [renameChoice, renameAt, renamedBy, hname, Decision.keep]
  solid t ts ht := by
    have hrenamed : Tsql.solid [renamedBy f t.placeless] = Tsql.solid [renamedBy f t] := by
      cases hname : t.isIdentifier with
      | true =>
          rw [renamedBy, renamedBy, Token.isIdentifier_placeless, if_pos hname, if_pos hname]
          rfl
      | false =>
          rw [renamedBy, renamedBy, Token.isIdentifier_placeless, hname]
          exact solid_placeless_cons t []
    rw [solid_cons_of_not_isWhitespace ht]
    simp only [renameChoice, Except.map, Except.ok.injEq, Decision.solid, renameAt, hrenamed]
    rfl

theorem procedureAt_solid {t : Token} (ht : t.isWhitespace = false) (ts : List Token) :
    procedureAt (solid (t :: ts)) = procedureAt (t :: ts) := by
  have hread : QualifiedName.read (solid ts) = QualifiedName.read (ts.filter (!·.isWhitespace)) :=
    QualifiedName.read_congr (map_face_placeless _)
  rw [solid_cons_of_not_isWhitespace ht, procedureAt, procedureAt, filter_solid, hread]
  rfl

theorem heedless_procedureChoice (f : Text → Text → Text × Text) :
    Heedless (procedureChoice f) where
  white t ts ht := by
    refine procedureChoice_of_none ?_
    have hkeyword : introducesProcedure t = false := by
      cases hkind : t.kind <;>
        simp [Token.isWhitespace, introducesProcedure, Token.isKeyword, hkind] at ht ⊢
    rw [procedureAt, hkeyword]
    rfl
  solid t ts ht := by
    have hsame := procedureAt_solid ht ts
    rw [solid_cons_of_not_isWhitespace ht] at hsame ⊢
    cases hhere : procedureAt (t :: ts) with
    | none =>
        rw [procedureChoice_of_none hhere, procedureChoice_of_none (hsame.trans hhere)]
        exact congrArg Except.ok (Decision.solid_keep_placeless t)
    | some found =>
        obtain ⟨old, span⟩ := found
        have hcall : Tsql.solid (renamedCall f t.placeless old) =
            Tsql.solid (renamedCall f t old) := solid_placeless_cons t _
        rw [procedureChoice_of_some hhere, procedureChoice_of_some (hsame.trans hhere)]
        simp only [Except.map, Decision.solid, hcall]

theorem schemaOwner?_placeless {c c' : Cursor}
    (h : c'.upcoming = c.upcoming.map Token.placeless) :
    schemaOwner? c' = (schemaOwner? c).map Token.placeless := by
  rw [schemaOwner?, schemaOwner?, Cursor.peek_placeless h, Cursor.peek_placeless h]
  cases c.peek 3 with
  | none => rfl
  | some clause =>
      cases c.peek 4 with
      | none => rfl
      | some owner =>
          change (if clause.isKeyword "AUTHORIZATION" && owner.isIdentifier then
              some owner.placeless else none) =
            (if clause.isKeyword "AUTHORIZATION" && owner.isIdentifier then
              some owner else none).map Token.placeless
          cases clause.isKeyword "AUTHORIZATION" && owner.isIdentifier <;> rfl

/-- What is decided at a verb. -/
theorem guardDecision_placeless (accepts : Text → Text → Bool) (ending : LineEnding) (t : Token)
    {c c' : Cursor} (h : c'.upcoming = c.upcoming.map Token.placeless) (object : Token)
    (name : QualifiedName) (span : Nat) :
    (guardDecision accepts ending t.placeless c' object.placeless name span).solid =
      (guardDecision accepts ending t c object name span).solid := by
  have hsignature : Signature.peek c' (2 + span) = Signature.peek c (2 + span) := by
    rw [Nat.add_comm, Signature.peek_placeless h]
  have hguard : ∀ schema, Guard.schema ending schema (schemaOwner? c') =
      Guard.schema ending schema (schemaOwner? c) := by
    intro schema
    rw [schemaOwner?_placeless h]
    cases schemaOwner? c <;> rfl
  have htaken : (schemaOwner? c').isSome = (schemaOwner? c).isSome := by
    rw [schemaOwner?_placeless h, Option.isSome_map]
  -- the replacement is the same, and of the verb only its place is another
  have hchosen : ∀ (accepted : Bool) (replacement : List Token),
      Tsql.solid (if accepted then replacement else [t.placeless]) =
        Tsql.solid (if accepted then replacement else [t]) := by
    intro accepted replacement
    cases accepted with
    | true => rfl
    | false => exact solid_placeless_cons t []
  change (guardDecision accepts ending t.placeless c' object name span).solid = _
  unfold guardDecision
  simp only [Token.isKeyword_placeless, hsignature, hguard, htaken]
  by_cases hprocedure : (object.isKeyword "PROCEDURE" || object.isKeyword "PROC") = true
  · simp only [if_pos hprocedure, Decision.solid, hchosen]
  simp only [if_neg hprocedure]
  by_cases hschema : (object.isKeyword "SCHEMA" && t.isKeyword "CREATE" &&
      name.isSinglePart) = true
  · simp only [if_pos hschema]
    split
    · rfl
    · simp only [Decision.solid, solid_placeless_cons]
  simp only [if_neg hschema]
  by_cases hfunction : object.isKeyword "FUNCTION" = true
  · simp only [if_pos hfunction]
    split
    · simp only [Decision.solid, hchosen]
    · exact Decision.solid_keep_placeless t
  simp only [if_neg hfunction]
  by_cases hview : object.isKeyword "VIEW" = true
  · simp only [if_pos hview, Decision.solid, hchosen]
  · simp only [if_neg hview, Decision.solid_keep_placeless]

theorem heedless_guardChoice (accepts : Text → Text → Bool) (ending : LineEnding) :
    Heedless (guardChoice accepts ending) where
  white t ts ht := by
    have hverb : (t.isKeyword "CREATE" || t.isKeyword "ALTER") = false := by
      cases hkind : t.kind <;> simp [Token.isWhitespace, Token.isKeyword, hkind] at ht ⊢
    simp only [guardChoice, guardCreates, hverb]
    rfl
  solid t ts ht := by
    have hupcoming := upcoming_solid ht ts
    rw [solid_cons_of_not_isWhitespace ht] at hupcoming ⊢
    simp only [guardChoice, guardCreates, Token.isKeyword_placeless,
      Cursor.peek_placeless hupcoming, QualifiedName.peek_placeless hupcoming]
    split
    · cases (Cursor.start (t :: ts)).peek 1 with
      | none => exact congrArg Except.ok (Decision.solid_keep_placeless t)
      | some object =>
          cases QualifiedName.peek (Cursor.start (t :: ts)) 2 with
          | none => exact congrArg Except.ok (Decision.solid_keep_placeless t)
          | some found =>
              exact congrArg Except.ok
                (guardDecision_placeless accepts ending t hupcoming object found.1 found.2)
    · exact congrArg Except.ok (Decision.solid_keep_placeless t)

theorem heedless_expandChoice (registry : Registry) (env : Environment) (level : Level) :
    Heedless (expandChoice registry env level) where
  white t ts ht := by
    have hkind : t.kind ≠ .blockComment := by
      cases hkind : t.kind <;> simp [Token.isWhitespace, hkind] at ht ⊢
    simp only [expandChoice, expandComments, if_neg hkind]
  solid t ts ht := by
    rw [solid_cons_of_not_isWhitespace ht]
    have hkeep : (Except.ok (Decision.keep t.placeless) : Except Error Decision).map
        Decision.solid = (Except.ok (Decision.keep t)).map Decision.solid :=
      congrArg Except.ok (Decision.solid_keep_placeless t)
    simp only [expandChoice, expandComments, Token.text_placeless]
    by_cases hkind : t.kind = .blockComment
    · have hkind' : t.placeless.kind = .blockComment := hkind
      rw [if_pos hkind', if_pos hkind]
      cases Template.detect t.text with
      | plain => exact hkeep
      | mismatched => rfl
      | template => rfl
    · have hkind' : t.placeless.kind ≠ .blockComment := hkind
      rw [if_neg hkind', if_neg hkind]
      exact hkeep

/-- The passes that the library offers, each with its configuration. -/
inductive BuiltIn : Pass → Prop where
  | identity : BuiltIn Pass.identity
  | renameIdentifiers (f : Text → Text) : BuiltIn (renameIdentifiers f)
  | renameProcedures (f : Text → Text → Text × Text) : BuiltIn (renameProcedures f)
  | guardCreates (accepts : Text → Text → Bool) (ending : LineEnding) :
      BuiltIn (guardCreates accepts ending)
  | expandComments (registry : Registry) (env : Environment) (inner : Level) :
      BuiltIn (expandComments registry env inner)

theorem BuiltIn.heedless {pass : Pass} (h : BuiltIn pass) :
    ∃ choose, pass.Sees choose ∧ Heedless choose := by
  cases h with
  | identity => exact ⟨_, identity_sees, heedless_identity⟩
  | renameIdentifiers f => exact ⟨_, renameIdentifiers_sees f, heedless_renameChoice f⟩
  | renameProcedures f => exact ⟨_, renameProcedures_sees f, heedless_procedureChoice f⟩
  | guardCreates accepts ending =>
      exact ⟨_, guardCreates_sees, heedless_guardChoice accepts ending⟩
  | expandComments registry env inner =>
      exact ⟨_, expandComments_sees, heedless_expandChoice registry env inner⟩

/-! ## Scripts -/

theorem solid_body_of_tokens {level : Level} {a b : Text} {ra rb : List Token}
    (ha : tokensFrom .start a = .ok ra) (hb : tokensFrom .start b = .ok rb)
    (h : solid (Script.parse level a).tokens = solid (Script.parse level b).tokens) :
    solid (Script.parse level a).body = solid (Script.parse level b).body := by
  have htokens : ∀ {source : Text} {raw : List Token}, tokensFrom .start source = .ok raw →
      solid (Script.parse level source).tokens =
        solid (Script.parse level source).body ++ [.synthetic .endOfFile []] := by
    intro source raw hraw
    rw [Script.body_parse, Script.parse, hraw, solid_append]
    rfl
  rw [htokens ha, htokens hb] at h
  exact List.append_cancel_right h

/-- Two scripts that differ in white space only have the same problems, in
the same order, and if they have none, then each pass of the library fails
with the same error on both, or asks the same questions, reports the same
and puts in the same tokens, white space aside. -/
theorem layout_unheeded {level : Level} {a b : Text} {ra rb : List Token}
    (ha : tokensFrom .start a = .ok ra) (hb : tokensFrom .start b = .ok rb)
    (h : solid (Script.parse level a).tokens = solid (Script.parse level b).tokens) :
    (Script.parse level a).problems.map Problem.cause =
        (Script.parse level b).problems.map Problem.cause ∧
      ((Script.parse level a).problems = [] → ∀ pass, BuiltIn pass →
        (∃ e, pass.run level a = .error e ∧ pass.run level b = .error e) ∨
        ∃ ta tb : Trace,
          pass.traceFrom (.start (Script.parse level a).body) = .ok ta ∧
          pass.traceFrom (.start (Script.parse level b).body) = .ok tb ∧
          pass.run level a = .ok ⟨Token.textOf ta.emitted, [], ta.reports, ta.asked⟩ ∧
          pass.run level b = .ok ⟨Token.textOf tb.emitted, [], tb.reports, tb.asked⟩ ∧
          ta.asked = tb.asked ∧ ta.reports = tb.reports ∧
          solid ta.emitted = solid tb.emitted) := by
  have hbody := solid_body_of_tokens ha hb h
  have hcauses := Structure.causes_parse_congr ha hb hbody
  refine ⟨hcauses, fun hnone pass hpass => ?_⟩
  have hnone' : (Script.parse level b).problems = [] := by
    rw [hnone, List.map_nil] at hcauses
    exact List.map_eq_nil_iff.mp hcauses.symm
  obtain ⟨choose, hsees, hheedless⟩ := hpass.heedless
  have hruns := traceFrom_congr hsees hheedless hbody
  rcases map_eq_map hruns with ⟨e, hea, heb⟩ | ⟨ta, tb, hta, htb, hsame⟩
  · exact Or.inl ⟨e, (run_eq_error_iff hnone).mpr hea, (run_eq_error_iff hnone').mpr heb⟩
  · obtain ⟨hemitted, hasked, hreports⟩ := Trace.mk.inj hsame
    exact Or.inr ⟨ta, tb, hta, htb, (run_eq_ok_iff hnone).mpr ⟨ta, hta, rfl⟩,
      (run_eq_ok_iff hnone').mpr ⟨tb, htb, rfl⟩, hasked, hreports, hemitted⟩

def denseCall : Text := "EXEC dbo.[p](1)".toList

/-- The same call, spread over lines. -/
def looseCall : Text := "EXEC\n  dbo .\n\t[p]\n(\n  1 )\n".toList

theorem layout_unheeded_denseCall_looseCall :
    ∃ ta tb : Trace,
      (renameProcedures Prod.mk).run .sql110 denseCall =
        .ok ⟨Token.textOf ta.emitted, [], ta.reports, ta.asked⟩ ∧
      (renameProcedures Prod.mk).run .sql110 looseCall =
        .ok ⟨Token.textOf tb.emitted, [], tb.reports, tb.asked⟩ ∧
      ta.asked = tb.asked ∧ ta.reports = tb.reports ∧
      solid ta.emitted = solid tb.emitted := by
  have hdense : (Script.parse .sql110 denseCall).problems = [] := by decide +kernel
  have hloose : (Script.parse .sql110 looseCall).problems = [] := by decide +kernel
  obtain ⟨ra, ha, -⟩ := Script.tokensFrom_of_problems hdense
  obtain ⟨rb, hb, -⟩ := Script.tokensFrom_of_problems hloose
  have hsolid : solid (Script.parse .sql110 denseCall).tokens =
      solid (Script.parse .sql110 looseCall).tokens := by
    decide +kernel
  have hruns := (layout_unheeded ha hb hsolid).2 hdense _ (.renameProcedures Prod.mk)
  rcases hruns with ⟨e, he, -⟩ | ⟨ta, tb, -, -, hta, htb, hrest⟩
  · obtain ⟨us, asked, -, hok⟩ := run_renameProcedures Prod.mk hdense
    rw [hok] at he
    cases he
  · exact ⟨ta, tb, hta, htb, hrest⟩

end Pass

end Tsql
