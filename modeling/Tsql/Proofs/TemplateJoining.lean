import Tsql.Proofs.TemplatePlaces

/-!
# Templates one behind the other

Two templates put together are one template, which gives their texts put
together. Three things are to be seen of the seam:

- **reading** (`CutInto.join`): tags are where they were. The opening
  braces of one could be made of the end of the first text and the start of
  the second; nothing else reaches over the seam, as every tag of the first
  is closed there. Text on both sides becomes one segment.
- **grammar** (`Block.join`): every conditional of the first is closed too,
  so that a derivation of the second goes on where that of the first is
  done.
- **rendering** (`renderNodes_append`): parts are rendered one after the
  other, up to the first name that is not known. The second text is in
  another place now, which only such an error shows.
-/

namespace Tsql

namespace Template

variable {p : Position} {registry : Registry} {env : Environment}

/-! ## Segments -/

/-- Text before segments; it is one piece with text that they begin with. -/
def prependText (content : Text) : List Segment → List Segment
  | .text more :: rest => .text (content ++ more) :: rest
  | rest => .text content :: rest

/-- Segments behind others, text on both sides of the seam being one
piece. -/
def joined : List Segment → List Segment → List Segment
  | [], ys => ys
  | .tag w :: xs, ys => .tag w :: joined xs ys
  | [.text content], ys => prependText content ys
  | .text content :: x :: xs, ys => .text content :: joined (x :: xs) ys

theorem joined_append_tag (xs : List Segment) (w : WrittenTag) (zs ys : List Segment) :
    joined (xs ++ .tag w :: zs) ys = xs ++ .tag w :: joined zs ys := by
  induction xs with
  | nil => rfl
  | cons x xs ih =>
      cases x with
      | tag v => rw [List.cons_append, joined, ih, List.cons_append]
      | text content =>
          cases xs with
          | nil => rfl
          | cons x' xs =>
              rw [List.cons_append, List.cons_append, joined, ← List.cons_append, ih]
              rfl

/-- Before a tag there is nothing to become one piece. -/
theorem joined_tag (xs : List Segment) (w : WrittenTag) (ys : List Segment) :
    joined xs (.tag w :: ys) = xs ++ .tag w :: ys := by
  induction xs with
  | nil => rfl
  | cons x xs ih =>
      cases x with
      | tag v => rw [joined, ih, List.cons_append]
      | text content =>
          cases xs with
          | nil => rfl
          | cons x' xs =>
              rw [joined, ih]
              rfl

theorem joined_nil (xs : List Segment) : joined xs [] = xs := by
  induction xs with
  | nil => rfl
  | cons x xs ih =>
      cases x with
      | tag v => rw [joined, ih]
      | text content =>
          cases xs with
          | nil => rfl
          | cons x' xs => rw [joined, ih]

/-- Opening braces are found in one of two texts, unless the first ends
with one. -/
theorem not_openMark_append {t u : Text} (ht : ¬ openMark <:+: t)
    (hend : t.getLast? ≠ some '\x7b') (hu : ¬ openMark <:+: u) : ¬ openMark <:+: t ++ u := by
  induction t with
  | nil => exact hu
  | cons c cs ih =>
      intro hoccurs
      rw [List.infix_cons_iff, not_or] at ht
      rcases List.infix_cons_iff.mp hoccurs with hstarts | hmore
      · obtain ⟨rfl, hsecond⟩ := List.cons_prefix_cons.mp hstarts
        cases cs with
        | nil => exact hend rfl
        | cons d ds =>
            obtain ⟨rfl, -⟩ := List.cons_prefix_cons.mp hsecond
            exact ht.1 (List.prefix_append openMark ds)
      · refine ih ht.2 (fun hlast => hend ?_) hmore
        rw [List.getLast?_cons, hlast]
        rfl

theorem TextPiece.prependText {text : Text} {piece : List Segment} (h : TextPiece text piece)
    (content : Text) : prependText content piece = [.text (content ++ text)] := by
  cases h with
  | nothing =>
      rw [List.append_nil]
      rfl
  | whole nonempty => rfl

theorem TextPiece.prependText_append_tag {text : Text} {piece : List Segment}
    (h : TextPiece text piece) (content : Text) (w : WrittenTag) (more : List Segment) :
    Template.prependText content (piece ++ .tag w :: more) =
      [.text (content ++ text)] ++ .tag w :: more := by
  cases h with
  | nothing =>
      rw [List.append_nil]
      rfl
  | whole nonempty => rfl

theorem CutInto.prependText {content source : Text} {segments : List Segment}
    (hne : content ≠ []) (hplain : ¬ openMark <:+: content)
    (hend : content.getLast? ≠ some '\x7b') (h : CutInto (p.after content) source segments) :
    CutInto p (content ++ source) (prependText content segments) := by
  have hboth : ∀ more : Text, content ++ more ≠ [] := fun more hnil =>
    hne (List.append_eq_nil_iff.mp hnil).1
  cases h with
  | text plain isPiece =>
      rw [isPiece.prependText]
      exact .text (not_openMark_append hplain hend plain) (.whole (hboth source))
  | @tag _ before inner rest piece more w opens isPiece closes position reads goesOn =>
      have hsource : content ++ (before ++ openMark ++ inner ++ closeMark ++ rest) =
          content ++ before ++ openMark ++ inner ++ closeMark ++ rest := by
        simp only [List.append_assoc]
      rw [hsource, isPiece.prependText_append_tag]
      refine .tag ?_ (.whole (hboth before)) closes ?_ reads ?_
      · rw [List.append_assoc]
        exact not_openMark_append hplain hend opens
      · rw [Position.after_append, position]
      · simpa only [List.append_assoc, Position.after_append] using goesOn

/-- A text is cut up to its end as if it stood alone, whatever is behind it,
unless it ends with an opening brace. -/
theorem CutInto.join {a b : Text} {xs ys : List Segment} (ha : CutInto p a xs)
    (hend : a.getLast? ≠ some '\x7b') (hb : CutInto (p.after a) b ys) :
    CutInto p (a ++ b) (joined xs ys) := by
  induction ha with
  | text plain isPiece =>
      cases isPiece with
      | nothing => exact hb
      | whole nonempty => exact hb.prependText nonempty plain hend
  | @tag p before content rest piece more w opens isPiece closes position reads _ ih =>
      rw [joined_append_tag, List.append_assoc _ rest b]
      refine .tag opens isPiece closes position reads (ih (fun hlast => hend ?_) ?_)
      · rw [List.getLast?_append, hlast]
        rfl
      · rw [← Position.after_append]
        exact hb

/-! ## Derivations -/

def Block.prependText (content : Text) : Block registry → Block registry
  | .text more rest => .text (content ++ more) rest
  | d => .text content d

/-- A derivation that goes on with another. -/
def Block.join : Block registry → Block registry → Block registry
  | .done, e => e
  | .text content .done, e => e.prependText content
  | .text content more, e => .text content (more.join e)
  | .placeholder w h more, e => .placeholder w h (more.join e)
  | .custom w h more, e => .custom w h (more.join e)
  | .conditional w condition h body branches more, e =>
    .conditional w condition h body branches (more.join e)

theorem Block.segments_prependText (content : Text) (d : Block registry) :
    (d.prependText content).segments = Template.prependText content d.segments := by
  cases d <;> rfl

theorem Branches.exists_last (d : Branches registry) :
    ∃ front w, d.segments = front ++ [.tag w] := by
  cases d with
  | close w _ => exact ⟨[], w, rfl⟩
  | elif w _ _ body more =>
      obtain ⟨front, last, hlast⟩ := more.exists_last
      exact ⟨.tag w :: (body.segments ++ front), last, by simp [Branches.segments, hlast]⟩
  | otherwise w _ body last _ => exact ⟨.tag w :: body.segments, last, rfl⟩

theorem Block.segments_join (d e : Block registry) :
    (d.join e).segments = joined d.segments e.segments := by
  cases d with
  | done => rfl
  | text content more =>
      have ih := more.segments_join e
      cases more with
      | done => exact e.segments_prependText content
      | text | placeholder | custom | conditional => exact congrArg (.text content :: ·) ih
  | placeholder w h more => exact congrArg (.tag w :: ·) (more.segments_join e)
  | custom w h more => exact congrArg (.tag w :: ·) (more.segments_join e)
  | conditional w condition h body branches more =>
      obtain ⟨front, last, hlast⟩ := branches.exists_last
      have hjoined : joined (body.segments ++ (branches.segments ++ more.segments)) e.segments =
          body.segments ++ (branches.segments ++ joined more.segments e.segments) := by
        have hsplit := joined_append_tag (body.segments ++ front) last more.segments e.segments
        simpa only [hlast, List.append_assoc, List.singleton_append] using hsplit
      rw [Block.join, Block.segments, more.segments_join e, Block.segments, joined, hjoined]

/-! ## Rendering -/

theorem expand_of_compile {source : Text} {t : Template} (h : compile registry source = .ok t) :
    expand registry env source = t.render env registry := by
  rw [expand, h]
  rfl

theorem renderNodes_append (xs ys : List Node) :
    renderNodes env registry (xs ++ ys) = do
      let x ← renderNodes env registry xs
      let y ← renderNodes env registry ys
      return x ++ y := by
  induction xs with
  | nil =>
      rw [List.nil_append, renderNodes]
      cases renderNodes env registry ys <;> rfl
  | cons node more ih =>
      rw [List.cons_append, renderNodes, ih, renderNodes]
      cases node.render env registry with
      | error e => rfl
      | ok text =>
          cases renderNodes env registry more with
          | error e => rfl
          | ok rest =>
              cases renderNodes env registry ys with
              | error e => rfl
              | ok last => exact congrArg Except.ok (List.append_assoc text rest last).symm

theorem renderNodes_prependText (content : Text) (d : Block registry) :
    renderNodes env registry (d.prependText content).nodes =
      renderNodes env registry (.text content :: d.nodes) := by
  cases d with
  | text more rest =>
      rw [Block.prependText, Block.nodes, Block.nodes, renderNodes, renderNodes, renderNodes,
        Node.render, Node.render, Node.render]
      cases renderNodes env registry rest.nodes with
      | error e => rfl
      | ok last => exact congrArg Except.ok (List.append_assoc content more last)
  | done | placeholder | custom | conditional => rfl

/-- Whether text at the seam is one piece or two, it is rendered alike. -/
theorem renderNodes_join (d e : Block registry) :
    renderNodes env registry (d.join e).nodes = renderNodes env registry (d.nodes ++ e.nodes) := by
  have hcons : ∀ (node : Node) {xs ys : List Node},
      renderNodes env registry xs = renderNodes env registry ys →
      renderNodes env registry (node :: xs) = renderNodes env registry (node :: ys) := by
    intro node xs ys h
    rw [renderNodes, renderNodes, h]
  cases d with
  | done => rfl
  | text content more =>
      have ih := hcons (.text content) (renderNodes_join more e)
      cases more with
      | done => exact renderNodes_prependText content e
      | text | placeholder | custom | conditional => exact ih
  | placeholder w h more => exact hcons _ (renderNodes_join more e)
  | custom w h more => exact hcons _ (renderNodes_join more e)
  | conditional w condition h body branches more => exact hcons _ (renderNodes_join more e)

/-! ## The result -/

/-- What the two templates give, one after the other, the second in its
place behind the first. -/
theorem compile_append {a b : Text} {ta tb : Template} (ha : compile registry a = .ok ta)
    (hb : compile registry b = .ok tb) (hend : a.getLast? ≠ some '\x7b') :
    ∃ t, compile registry (a ++ b) = .ok t ∧ ∀ env : Environment, t.render env registry = do
      let x ← ta.render env registry
      let y ← (tb.render env registry).mapError (Error.moved (Position.start.after a).shifted)
      return x ++ y := by
  obtain ⟨da⟩ := exists_derivation ha
  obtain ⟨db⟩ := exists_derivation hb
  obtain rfl := Except.ok.inj (da.compile_eq.symm.trans ha)
  obtain rfl := Except.ok.inj (db.compile_eq.symm.trans hb)
  let behind := (Position.start.after a).shifted
  have hcut : CutInto .start (a ++ b) (da.block.join (db.block.moved behind)).segments := by
    rw [Block.segments_join, Block.segments_moved]
    exact da.cut.join hend (db.cut.moved (Position.carries_shifted _))
  refine ⟨_, Derivation.compile_eq ⟨_, hcut⟩, fun env => ?_⟩
  rw [render, renderNodes_join, renderNodes_append, Block.nodes_moved, renderNodes_moved]
  rfl

/-- Let two texts be templates, and let the first not end with an opening
brace. Then they are a template together. It gives what they give, one
after the other; it fails for the name that the first of them to fail does
not know, which stands where it stood, counted from the beginning of
both. -/
theorem expand_append {a b : Text} (ha : ∃ t, compile registry a = .ok t)
    (hb : ∃ t, compile registry b = .ok t) (hend : a.getLast? ≠ some '\x7b') :
    (∃ t, compile registry (a ++ b) = .ok t) ∧
    ∀ env : Environment,
      (∀ x y, expand registry env a = .ok x → expand registry env b = .ok y →
        expand registry env (a ++ b) = .ok (x ++ y)) ∧
      (∀ name place, expand registry env a = .error (.unknownVariable name place) →
        expand registry env (a ++ b) = .error (.unknownVariable name place)) ∧
      ∀ x name place, expand registry env a = .ok x →
        expand registry env b = .error (.unknownVariable name place) →
        expand registry env (a ++ b) =
          .error (.unknownVariable name ((Position.start.after a).shifted place)) := by
  obtain ⟨ta, ha⟩ := ha
  obtain ⟨tb, hb⟩ := hb
  obtain ⟨t, ht, hrender⟩ := compile_append ha hb hend
  refine ⟨⟨t, ht⟩, fun env => ?_⟩
  rw [expand_of_compile ha, expand_of_compile hb, expand_of_compile ht, hrender]
  refine ⟨fun x y hx hy => ?_, fun name place hx => ?_, fun x name place hx hy => ?_⟩
  · rw [hx, hy]
    rfl
  · rw [hx]
    rfl
  · rw [hx, hy]
    rfl

/-- Two braces that were one each open a tag. -/
example : expand .standard .empty (['\x7b'] ++ ['\x7b']) = .error (.unterminatedTag .start) := by
  decide +kernel

/-- A conditional and text behind it on its second line. -/
def greeting : Text := "\x7b\x7b#if A\x7d\x7dx\x7b\x7b/if\x7d\x7d\n y".toList

/-- Text before a placeholder. -/
def address : Text := " z \x7b\x7bB\x7d\x7d".toList

def knownA : Environment := ⟨[(['A'], .bool true)]⟩

def knownAB : Environment := ⟨[(['A'], .bool true), (['B'], .string ['b'])]⟩

theorem expand_append_greeting :
    (∃ t, compile .standard greeting = .ok t) ∧ (∃ t, compile .standard address = .ok t) ∧
      greeting.getLast? ≠ some '\x7b' ∧
      expand .standard knownAB (greeting ++ address) = .ok "x\n y z b".toList ∧
      expand .standard knownA (greeting ++ address) =
        .error (.unknownVariable ['B'] ⟨2, 6⟩) := by
  have hread : ∀ source : Text, (compile .standard source).toOption.isSome = true →
      ∃ t, compile .standard source = .ok t := fun source h =>
    ⟨_, Pass.eq_ok_of_toOption (Option.some_get h).symm⟩
  have ha := hread greeting (by decide +kernel)
  have hb := hread address (by decide +kernel)
  have hend : greeting.getLast? ≠ some '\x7b' := by decide
  obtain ⟨-, hexpand⟩ := expand_append ha hb hend
  refine ⟨ha, hb, hend, (hexpand knownAB).1 "x\n y".toList " z b".toList (by decide +kernel)
    (by decide +kernel), ?_⟩
  exact (hexpand knownA).2.2 "x\n y".toList ['B'] ⟨1, 4⟩ (by decide +kernel) (by decide +kernel)

end Template

end Tsql
