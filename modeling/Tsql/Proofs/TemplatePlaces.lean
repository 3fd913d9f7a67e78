import Tsql.Proofs.SourceMap
import Tsql.Proofs.TemplateGrammar
import Tsql.Render

/-!
# Templates in another place

The places in a template are counted from its beginning. Where the same
text stands behind some other text, all of them are other places, and
nothing else is: it is cut into the same segments (`CutInto.moved`), which
have the same derivation (`Block.moved`), and what that stands for is
rendered alike (`renderNodes_moved`). Only an error tells where the template
stands.

`Carries f p q` is all that is asked of a way to move places: what is
behind a text from `p` on is moved to what is behind it from `q` on.
`Position.shifted` moves them so from the beginning of a text to any place.
-/

namespace Tsql

namespace Position

/-- Where in a text that begins at `q` stands what is at `p` in that text
by itself. -/
def shifted (q p : Position) : Position :=
  if p.line = 1 then ⟨q.line, q.column + p.column - 1⟩ else ⟨q.line + p.line - 1, p.column⟩

theorem shifted_next (q : Position) {p : Position} (hline : 1 ≤ p.line) (hcolumn : 1 ≤ p.column)
    (c : Char) : q.shifted (p.next c) = (q.shifted p).next c := by
  obtain ⟨line, column⟩ := p
  simp only at hline hcolumn
  have hnext : line + 1 ≠ 1 := by omega
  by_cases hc : c = '\n'
  · by_cases hfirst : line = 1
    · simp [shifted, next, hc, hfirst]
    · simp only [shifted, next, hc, if_true, if_neg hfirst, if_neg hnext, mk.injEq, and_true]
      omega
  · by_cases hfirst : line = 1
    · simp only [shifted, next, if_neg hc, if_pos hfirst, mk.injEq, true_and]
      omega
    · simp only [shifted, next, if_neg hc, if_neg hfirst]

theorem shifted_after (q : Position) (t : Text) : q.shifted (start.after t) = q.after t := by
  rw [← List.reverse_reverse t]
  induction t.reverse with
  | nil => simp [shifted, start]
  | cons c cs ih =>
      have hplace := start_after cs.reverse
      rw [List.reverse_cons, after_append, after_append, ← ih, after_cons, after_nil, after_cons,
        after_nil]
      exact q.shifted_next (by rw [hplace]; exact Nat.le_add_left 1 _)
        (by rw [hplace]; exact Nat.le_add_left 1 _) c

/-- Moving places takes what is behind a text from `p` on to what is behind
it from `q` on. -/
def Carries (f : Position → Position) (p q : Position) : Prop :=
  ∀ t : Text, f (p.after t) = q.after t

variable {f : Position → Position} {p q : Position}

theorem carries_shifted (q : Position) : Carries q.shifted start q := q.shifted_after

theorem Carries.here (h : Carries f p q) : f p = q := h []

theorem Carries.after (h : Carries f p q) (t : Text) : Carries f (p.after t) (q.after t) := by
  intro u
  rw [← after_append, ← after_append, h]

end Position

namespace Template

variable {f : Position → Position} {p q : Position} {registry : Registry}

/-! ## Segments -/

def Argument.moved (f : Position → Position) : Argument → Argument
  | .variableName path position => .variableName path (f position)
  | .literal value => .literal value

theorem Argument.moved_moved (g : Position → Position) (a : Argument) :
    (a.moved f).moved g = a.moved (g ∘ f) := by
  cases a <;> rfl

def WrittenTag.moved (f : Position → Position) (w : WrittenTag) : WrittenTag :=
  { w with arguments := w.arguments.map (Argument.moved f), position := f w.position }

def Segment.moved (f : Position → Position) : Segment → Segment
  | .text content => .text content
  | .tag w => .tag (w.moved f)

theorem wordArgument_moved (word : Text) :
    (wordArgument word p).moved f = wordArgument word (f p) := by
  rw [wordArgument, wordArgument]
  cases Number.read? word <;> rfl

theorem Arguments.moved {t : Text} {arguments : List Argument} (h : Arguments p t arguments)
    (hf : p.Carries f q) : Arguments q t (arguments.map (Argument.moved f)) := by
  induction h generalizing q with
  | done p => exact .done q
  | @blank p c cs arguments hblank _ ih => exact .blank hblank (ih (hf.after [c]))
  | quoted opens closes _ ih => exact .quoted opens closes (ih (hf.after _))
  | @word p c cs rest arguments solid unquoted _ ih =>
      rw [List.map_cons, wordArgument_moved, hf.here]
      exact .word solid unquoted (ih (hf.after (c :: cs)))

theorem TagContent.moved {content : Text} {w : WrittenTag} (h : TagContent content w)
    (hf : Position.Carries f w.position q) : TagContent content (w.moved f) := by
  cases h with
  | mk front_blank back_blank isName ends reads =>
      refine .mk front_blank back_blank isName ends ?_
      rw [hf.here]
      exact reads.moved (hf.after _)

theorem TextPiece.map_moved {content : Text} {piece : List Segment} (h : TextPiece content piece) :
    piece.map (Segment.moved f) = piece := by
  cases h with
  | nothing => rfl
  | whole nonempty => rfl

/-- A text is cut in the same way wherever it begins. -/
theorem CutInto.moved {source : Text} {segments : List Segment} (h : CutInto p source segments)
    (hf : Position.Carries f p q) : CutInto q source (segments.map (Segment.moved f)) := by
  induction h generalizing q with
  | text plain isPiece =>
      rw [isPiece.map_moved]
      exact .text plain isPiece
  | @tag p before content rest piece more w opens isPiece closes position reads _ ih =>
      rw [List.map_append, isPiece.map_moved, List.map_cons]
      have hcontent : Position.Carries f w.position (q.after before) := by
        rw [position]
        exact hf.after before
      exact .tag opens isPiece closes hcontent.here (reads.moved hcontent) (ih (hf.after _))

/-! ## Derivations -/

namespace WrittenTag

variable {w : WrittenTag} {condition : Argument}

theorem IsPlaceholder.moved (h : w.IsPlaceholder) (f : Position → Position) :
    (w.moved f).IsPlaceholder := by
  refine ⟨h.1, ?_⟩
  rw [WrittenTag.moved, h.2]
  rfl

theorem IsCustom.moved (h : w.IsCustom registry) (f : Position → Position) :
    (w.moved f).IsCustom registry := by
  obtain ⟨hsign, hname, tag, hfind, harity⟩ := h
  exact ⟨hsign, hname, tag, hfind, (List.length_map _).trans harity⟩

theorem map_moved_singleton (h : w.arguments = [condition]) (f : Position → Position) :
    (w.moved f).arguments = [condition.moved f] := by
  rw [WrittenTag.moved, h]
  rfl

theorem IsIf.moved (h : w.IsIf condition) (f : Position → Position) :
    (w.moved f).IsIf (condition.moved f) :=
  ⟨h.1, h.2.1, map_moved_singleton h.2.2 f⟩

theorem IsElif.moved (h : w.IsElif condition) (f : Position → Position) :
    (w.moved f).IsElif (condition.moved f) :=
  ⟨h.1, h.2.1, map_moved_singleton h.2.2 f⟩

theorem IsElse.moved (h : w.IsElse) (f : Position → Position) : (w.moved f).IsElse := by
  refine ⟨h.1, h.2.1, ?_⟩
  rw [WrittenTag.moved, h.2.2]
  rfl

theorem IsClose.moved (h : w.IsClose) (f : Position → Position) : (w.moved f).IsClose := h

end WrittenTag

mutual

def Block.moved (f : Position → Position) : Block registry → Block registry
  | .done => .done
  | .text content more => .text content (more.moved f)
  | .placeholder w h more => .placeholder (w.moved f) (h.moved f) (more.moved f)
  | .custom w h more => .custom (w.moved f) (h.moved f) (more.moved f)
  | .conditional w condition h body branches more =>
    .conditional (w.moved f) (condition.moved f) (h.moved f) (body.moved f) (branches.moved f)
      (more.moved f)

def Branches.moved (f : Position → Position) : Branches registry → Branches registry
  | .close w h => .close (w.moved f) (h.moved f)
  | .elif w condition h body more =>
    .elif (w.moved f) (condition.moved f) (h.moved f) (body.moved f) (more.moved f)
  | .otherwise w h body last hlast =>
    .otherwise (w.moved f) (h.moved f) (body.moved f) (last.moved f) (hlast.moved f)

end

mutual

theorem Block.segments_moved (d : Block registry) :
    (d.moved f).segments = d.segments.map (Segment.moved f) :=
  match d with
  | .done => rfl
  | .text content more => congrArg (_ :: ·) more.segments_moved
  | .placeholder w h more => congrArg (_ :: ·) more.segments_moved
  | .custom w h more => congrArg (_ :: ·) more.segments_moved
  | .conditional w condition h body branches more => by
      simp only [Block.moved, Block.segments, List.map_cons, List.map_append,
        body.segments_moved, branches.segments_moved, more.segments_moved]
      rfl

theorem Branches.segments_moved (d : Branches registry) :
    (d.moved f).segments = d.segments.map (Segment.moved f) :=
  match d with
  | .close w h => rfl
  | .elif w condition h body more => by
      simp only [Branches.moved, Branches.segments, List.map_cons, List.map_append,
        body.segments_moved, more.segments_moved]
      rfl
  | .otherwise w h body last hlast => by
      simp only [Branches.moved, Branches.segments, List.map_cons, List.map_append,
        body.segments_moved]
      rfl

end

/-! ## Nodes -/

mutual

def Node.moved (f : Position → Position) : Node → Node
  | .text content => .text content
  | .placeholder path position => .placeholder path (f position)
  | .conditional arms none => .conditional (armsMoved f arms) none
  | .conditional arms (some body) => .conditional (armsMoved f arms) (some (nodesMoved f body))
  | .tag name arguments => .tag name (arguments.map (Argument.moved f))

def armsMoved (f : Position → Position) :
    List (Argument × List Node) → List (Argument × List Node)
  | [] => []
  | (condition, body) :: more => (condition.moved f, nodesMoved f body) :: armsMoved f more

def nodesMoved (f : Position → Position) : List Node → List Node
  | [] => []
  | node :: more => node.moved f :: nodesMoved f more

end

theorem Node.moved_conditional (arms : List (Argument × List Node))
    (last : Option (List Node)) :
    (Node.conditional arms last).moved f =
      .conditional (armsMoved f arms) (last.map (nodesMoved f)) := by
  cases last <;> rw [Node.moved] <;> rfl

mutual

theorem Node.moved_moved (g : Position → Position) (node : Node) :
    (node.moved f).moved g = node.moved (g ∘ f) :=
  match node with
  | .text content => rfl
  | .placeholder path position => rfl
  | .conditional arms none => by simp only [Node.moved, armsMoved_armsMoved g arms]
  | .conditional arms (some body) => by
      simp only [Node.moved, armsMoved_armsMoved g arms, nodesMoved_nodesMoved g body]
  | .tag name arguments => by
      rw [Node.moved, Node.moved, List.map_map, Node.moved]
      exact congrArg (Node.tag name) (List.map_congr_left fun a _ => a.moved_moved g)

theorem armsMoved_armsMoved (g : Position → Position) (arms : List (Argument × List Node)) :
    armsMoved g (armsMoved f arms) = armsMoved (g ∘ f) arms :=
  match arms with
  | [] => rfl
  | (condition, body) :: more => by
      simp only [armsMoved, Argument.moved_moved, nodesMoved_nodesMoved g body,
        armsMoved_armsMoved g more]

theorem nodesMoved_nodesMoved (g : Position → Position) (nodes : List Node) :
    nodesMoved g (nodesMoved f nodes) = nodesMoved (g ∘ f) nodes :=
  match nodes with
  | [] => rfl
  | node :: more => by
      simp only [nodesMoved, Node.moved_moved g node, nodesMoved_nodesMoved g more]

end

mutual

/-- What a moved derivation stands for. -/
theorem Block.nodes_moved (d : Block registry) : (d.moved f).nodes = nodesMoved f d.nodes :=
  match d with
  | .done => by rw [Block.moved, Block.nodes, nodesMoved]
  | .text content more => by
      simp only [Block.moved, Block.nodes, nodesMoved, Node.moved, more.nodes_moved]
  | .placeholder w h more => by
      simp only [Block.moved, Block.nodes, nodesMoved, Node.moved, more.nodes_moved]
      rfl
  | .custom w h more => by
      simp only [Block.moved, Block.nodes, nodesMoved, Node.moved, more.nodes_moved]
      rfl
  | .conditional w condition h body branches more => by
      simp only [Block.moved, Block.nodes, nodesMoved, Node.moved_conditional, armsMoved,
        body.nodes_moved, branches.arms_moved, branches.last_moved, more.nodes_moved]

theorem Branches.arms_moved (d : Branches registry) : (d.moved f).arms = armsMoved f d.arms :=
  match d with
  | .close w h => by rw [Branches.moved, Branches.arms, Branches.arms, armsMoved]
  | .elif w condition h body more => by
      simp only [Branches.moved, Branches.arms, armsMoved, body.nodes_moved, more.arms_moved]
  | .otherwise w h body last hlast => by
      rw [Branches.moved, Branches.arms, Branches.arms, armsMoved]

theorem Branches.last_moved (d : Branches registry) :
    (d.moved f).last = d.last.map (nodesMoved f) :=
  match d with
  | .close w h => rfl
  | .elif w condition h body more => by
      simp only [Branches.moved, Branches.last, more.last_moved]
  | .otherwise w h body last hlast => by
      simp only [Branches.moved, Branches.last, body.nodes_moved, Option.map_some]

end

/-! ## Rendering -/

/-- An error of a rendering in another place. It tells where a name stands
that is not known; a tag that is not there is reported without a place. -/
def Error.moved (f : Position → Position) : Error → Error
  | .unknownVariable name position => .unknownVariable name (f position)
  | e => e

variable {env : Environment}

theorem mapError_bind {α β : Type} (x : Except Error α) (g : α → Except Error β)
    (h : Error → Error) :
    (x >>= g).mapError h = x.mapError h >>= fun a => (g a).mapError h := by
  cases x <;> rfl

theorem resolveName_moved (name : Text) (position : Position) :
    resolveName env name (f position) =
      (resolveName env name position).mapError (Error.moved f) := by
  rw [resolveName, resolveName]
  cases env.lookup name <;> rfl

theorem Argument.resolve_moved (a : Argument) :
    (a.moved f).resolve env = (a.resolve env).mapError (Error.moved f) := by
  cases a with
  | literal value => rfl
  | variableName path position => exact resolveName_moved path position

theorem resolveAll_moved (arguments : List Argument) :
    resolveAll env (arguments.map (Argument.moved f)) =
      (resolveAll env arguments).mapError (Error.moved f) := by
  induction arguments with
  | nil => rfl
  | cons a more ih =>
      simp only [List.map_cons, resolveAll, mapError_bind, a.resolve_moved, ih]
      rfl

theorem renderTag_moved (name : Text) (arguments : List Argument) :
    renderTag env registry name (arguments.map (Argument.moved f)) =
      (renderTag env registry name arguments).mapError (Error.moved f) := by
  rw [renderTag, renderTag]
  cases registry.find? name with
  | none => rfl
  | some tag =>
      simp only [mapError_bind, resolveAll_moved]
      rfl

mutual

theorem Node.render_moved (node : Node) :
    (node.moved f).render env registry = (node.render env registry).mapError (Error.moved f) :=
  match node with
  | .text content => rfl
  | .placeholder path position => by
      rw [Node.moved, Node.render, Node.render, resolveName_moved, mapError_bind]
      rfl
  | .conditional arms none => by
      rw [Node.moved, Node.render, Node.render, renderArms_moved arms, mapError_bind]
      rfl
  | .conditional arms (some body) => by
      rw [Node.moved, Node.render, Node.render, renderArms_moved arms, mapError_bind]
      congr 1
      funext taken
      cases taken with
      | some text => rfl
      | none => exact renderNodes_moved body
  | .tag name arguments => renderTag_moved name arguments

theorem renderArms_moved (arms : List (Argument × List Node)) :
    renderArms env registry (armsMoved f arms) =
      (renderArms env registry arms).mapError (Error.moved f) :=
  match arms with
  | [] => rfl
  | (condition, body) :: more => by
      rw [armsMoved, renderArms, renderArms, condition.resolve_moved, mapError_bind]
      congr 1
      funext value
      split
      · rw [renderNodes_moved body, mapError_bind]
        rfl
      · exact renderArms_moved more

/-- Moved nodes give the same text, or the same error in the other
place. -/
theorem renderNodes_moved (nodes : List Node) :
    renderNodes env registry (nodesMoved f nodes) =
      (renderNodes env registry nodes).mapError (Error.moved f) :=
  match nodes with
  | [] => rfl
  | node :: more => by
      rw [nodesMoved, renderNodes, renderNodes, node.render_moved, mapError_bind]
      congr 1
      funext text
      rw [renderNodes_moved more, mapError_bind]
      rfl

end

end Template

end Tsql
