import Tsql.Proofs.TemplateSegments

/-!
# The grammar of templates

    block       := (text | placeholder | custom tag | conditional)*
    conditional := #if block (#elif block)* (#else block)? /if

A value of `Block` is a derivation by this grammar: each constructor is a
production and holds what the production asks of its tags. `segments` is
what a derivation derives, `nodes` what it stands for.

The builder reads from the left and keeps a stack; nothing in it is shaped
like a derivation. What one segment can do to it is said once (`Step`).
From this follow

- **reading** (`Block.foldlM_segments`): over the segments of a derivation
  the builder puts together its nodes;
- **finding** (`exists_block`): a run that leaves no more conditionals open
  than it found went over a block, up to a tag that ends it;
- **uniqueness** (`Block.eq_of_segments`): the tags that end a block begin
  none of its parts, so the segments tell which production was used.
-/

namespace Tsql

namespace Template

/-! ## Productions -/

namespace WrittenTag

def IsPlaceholder (w : WrittenTag) : Prop := w.sign = .plain ∧ w.arguments = []

/-- A tag of the registry, with as many arguments as it has parameters;
the names of conditionals are taken. -/
def IsCustom (registry : Registry) (w : WrittenTag) : Prop :=
  w.sign = .opening ∧
    w.name ∉ ["if".toList, "elif".toList, "elseif".toList, "else".toList] ∧
    ∃ tag, registry.find? w.name = some tag ∧ w.arguments.length = tag.parameters.length

def IsIf (w : WrittenTag) (condition : Argument) : Prop :=
  w.sign = .opening ∧ w.name = "if".toList ∧ w.arguments = [condition]

def IsElif (w : WrittenTag) (condition : Argument) : Prop :=
  w.sign = .opening ∧ (w.name = "elif".toList ∨ w.name = "elseif".toList) ∧
    w.arguments = [condition]

def IsElse (w : WrittenTag) : Prop :=
  w.sign = .opening ∧ w.name = "else".toList ∧ w.arguments = []

/-- Arguments of a closing tag mean nothing. -/
def IsClose (w : WrittenTag) : Prop := w.sign = .closing ∧ w.name = "if".toList

end WrittenTag

mutual

/-- A derivation of a block. -/
inductive Block (registry : Registry) : Type where
  | done
  | text (content : Text) (more : Block registry)
  | placeholder (w : WrittenTag) (isPlaceholder : w.IsPlaceholder) (more : Block registry)
  | custom (w : WrittenTag) (isCustom : w.IsCustom registry) (more : Block registry)
  | conditional (w : WrittenTag) (condition : Argument) (isIf : w.IsIf condition)
      (body : Block registry) (branches : Branches registry) (more : Block registry)

/-- A derivation of what follows the body of an arm, up to the end of the
conditional. -/
inductive Branches (registry : Registry) : Type where
  | close (w : WrittenTag) (isClose : w.IsClose)
  | elif (w : WrittenTag) (condition : Argument) (isElif : w.IsElif condition)
      (body : Block registry) (more : Branches registry)
  | otherwise (w : WrittenTag) (isElse : w.IsElse) (body : Block registry)
      (last : WrittenTag) (isClose : last.IsClose)

end

variable {registry : Registry}

mutual

/-- The segments that are derived. -/
def Block.segments : Block registry → List Segment
  | .done => []
  | .text content more => .text content :: more.segments
  | .placeholder w _ more => .tag w :: more.segments
  | .custom w _ more => .tag w :: more.segments
  | .conditional w _ _ body branches more =>
    .tag w :: (body.segments ++ (branches.segments ++ more.segments))

def Branches.segments : Branches registry → List Segment
  | .close w _ => [.tag w]
  | .elif w _ _ body more => .tag w :: (body.segments ++ more.segments)
  | .otherwise w _ body last _ => .tag w :: (body.segments ++ [.tag last])

end

mutual

/-- The nodes that a derivation stands for. -/
def Block.nodes : Block registry → List Node
  | .done => []
  | .text content more => .text content :: more.nodes
  | .placeholder w _ more => .placeholder w.name w.position :: more.nodes
  | .custom w _ more => .tag w.name w.arguments :: more.nodes
  | .conditional _ condition _ body branches more =>
    .conditional ((condition, body.nodes) :: branches.arms) branches.last :: more.nodes

/-- The arms behind the first. -/
def Branches.arms : Branches registry → List (Argument × List Node)
  | .close _ _ => []
  | .elif _ condition _ body more => (condition, body.nodes) :: more.arms
  | .otherwise _ _ _ _ _ => []

/-- The part for when no arm is taken. -/
def Branches.last : Branches registry → Option (List Node)
  | .close _ _ => none
  | .elif _ _ _ _ more => more.last
  | .otherwise _ _ body _ _ => some body.nodes

end

/-! ## One step of the builder -/

/-- What a segment can do to a template that is being read. -/
inductive Step (registry : Registry) : Builder → Segment → Builder → Prop where
  | text {b : Builder} {content : Text} : Step registry b (.text content) (b.push (.text content))
  | placeholder {b : Builder} {w : WrittenTag} (h : w.IsPlaceholder) :
      Step registry b (.tag w) (b.push (.placeholder w.name w.position))
  | custom {b : Builder} {w : WrittenTag} (h : w.IsCustom registry) :
      Step registry b (.tag w) (b.push (.tag w.name w.arguments))
  | openIf {b : Builder} {w : WrittenTag} {condition : Argument} (h : w.IsIf condition) :
      Step registry b (.tag w) ⟨[], ⟨w.position, b.nodes, [], some condition⟩ :: b.frames⟩
  | nextArm {nodes : List Node} {f : Frame} {fs : List Frame} {w : WrittenTag}
      {condition next : Argument} (h : w.IsElif next) (hf : f.condition = some condition) :
      Step registry ⟨nodes, f :: fs⟩ (.tag w)
        ⟨[], { f with arms := (condition, nodes.reverse) :: f.arms, condition := some next } :: fs⟩
  | otherwise {nodes : List Node} {f : Frame} {fs : List Frame} {w : WrittenTag}
      {condition : Argument} (h : w.IsElse) (hf : f.condition = some condition) :
      Step registry ⟨nodes, f :: fs⟩ (.tag w)
        ⟨[], { f with arms := (condition, nodes.reverse) :: f.arms, condition := none } :: fs⟩
  | close {nodes : List Node} {f : Frame} {fs : List Frame} {w : WrittenTag} (h : w.IsClose) :
      Step registry ⟨nodes, f :: fs⟩ (.tag w)
        ⟨Builder.closed f nodes.reverse :: f.before, fs⟩

theorem onlyArgument_eq_ok_iff {w : WrittenTag} {a : Argument} :
    Builder.onlyArgument w = .ok a ↔ w.arguments = [a] := by
  rw [Builder.onlyArgument]
  split
  · rename_i a' h
    simp [h]
  · rename_i h
    simp only [reduceCtorEq, false_iff]
    exact h a

theorem step_of_step {b b' : Builder} {s : Segment} (h : Step registry b s b') :
    b.step registry s = .ok b' := by
  cases h with
  | text => rfl
  | placeholder h => simp [Builder.step, Builder.placeholder, h.1, h.2]
  | custom h =>
      obtain ⟨hsign, hname, tag, hfind, harity⟩ := h
      simp only [List.mem_cons, List.not_mem_nil, or_false, not_or] at hname
      obtain ⟨hif, helif, helseif, helse⟩ := hname
      simp only [Builder.step, hsign]
      rw [if_neg hif, if_neg (not_or.mpr ⟨helif, helseif⟩), if_neg helse]
      simp only [Builder.custom, hfind, if_pos harity]
  | openIf h =>
      obtain ⟨hsign, hname, hargument⟩ := h
      simp only [Builder.step, hsign, if_pos hname, Builder.openIf,
        onlyArgument_eq_ok_iff.mpr hargument]
      rfl
  | @nextArm nodes f fs w condition next h hf =>
      obtain ⟨hsign, hname, hargument⟩ := h
      have hif : w.name ≠ "if".toList := by
        rcases hname with hname | hname <;> rw [hname] <;> decide
      simp only [Builder.step, hsign, if_neg hif, if_pos hname, Builder.nextArm, hf,
        onlyArgument_eq_ok_iff.mpr hargument]
      rfl
  | otherwise h hf =>
      obtain ⟨hsign, hname, hargument⟩ := h
      simp [Builder.step, Builder.otherwise, hsign, hname, hargument, hf]
  | close h => simp [Builder.step, Builder.close, h.1, h.2]

theorem step_of_opening {b b' : Builder} {w : WrittenTag} (hsign : w.sign = .opening)
    (h : b.step registry (.tag w) = .ok b') : Step registry b (.tag w) b' := by
  simp only [Builder.step, hsign] at h
  by_cases hif : w.name = "if".toList
  · rw [if_pos hif, Builder.openIf] at h
    obtain ⟨condition, hargument, h⟩ := Pass.bind_eq_ok_iff.mp h
    obtain rfl := Except.ok.inj h
    exact .openIf ⟨hsign, hif, onlyArgument_eq_ok_iff.mp hargument⟩
  rw [if_neg hif] at h
  obtain ⟨nodes, frames⟩ := b
  by_cases helif : w.name = "elif".toList ∨ w.name = "elseif".toList
  · rw [if_pos helif, Builder.nextArm] at h
    rcases frames with _ | ⟨f, fs⟩
    · cases h
    · simp only at h
      split at h
      · cases h
      · rename_i condition hf
        obtain ⟨next, hargument, h⟩ := Pass.bind_eq_ok_iff.mp h
        obtain rfl := Except.ok.inj h
        exact .nextArm ⟨hsign, helif, onlyArgument_eq_ok_iff.mp hargument⟩ hf
  rw [if_neg helif] at h
  by_cases helse : w.name = "else".toList
  · rw [if_pos helse, Builder.otherwise] at h
    rcases frames with _ | ⟨f, fs⟩
    · cases h
    · simp only at h
      split at h
      · cases h
      · rename_i condition hf harguments
        obtain rfl := Except.ok.inj h
        exact .otherwise ⟨hsign, helse, harguments⟩ hf
      · cases h
  rw [if_neg helse, Builder.custom] at h
  split at h
  · cases h
  · rename_i tag hfind
    split at h
    · rename_i harity
      obtain rfl := Except.ok.inj h
      refine .custom ⟨hsign, ?_, tag, hfind, harity⟩
      simp only [List.mem_cons, List.not_mem_nil, or_false]
      tauto
    · cases h

/-- The builder goes on after the steps there are, and no others. -/
theorem step_eq_ok_iff {b b' : Builder} {s : Segment} :
    b.step registry s = .ok b' ↔ Step registry b s b' := by
  refine ⟨fun h => ?_, step_of_step⟩
  cases s with
  | text content =>
      obtain rfl := Except.ok.inj h
      exact .text
  | tag w =>
      cases hsign : w.sign with
      | opening => exact step_of_opening hsign h
      | plain =>
          simp only [Builder.step, hsign, Builder.placeholder] at h
          split at h
          · rename_i harguments
            obtain rfl := Except.ok.inj h
            exact .placeholder ⟨hsign, harguments⟩
          · cases h
      | closing =>
          obtain ⟨nodes, frames⟩ := b
          simp only [Builder.step, hsign, Builder.close] at h
          rcases frames with _ | ⟨f, fs⟩
          · cases h
          · simp only at h
            split at h
            · rename_i hname
              obtain rfl := Except.ok.inj h
              exact .close ⟨hsign, hname⟩
            · cases h

/-! ## Reading a derivation -/

theorem foldlM_cons_of_step {b b' : Builder} {s : Segment} (h : Step registry b s b')
    (segments : List Segment) :
    (s :: segments).foldlM (Builder.step registry) b =
      segments.foldlM (Builder.step registry) b' := by
  rw [List.foldlM_cons, step_of_step h]
  rfl

mutual

/-- Over the segments of a block the builder adds its nodes to those it
has. -/
theorem Block.foldlM_segments (d : Block registry) (b : Builder) :
    d.segments.foldlM (Builder.step registry) b = .ok ⟨d.nodes.reverse ++ b.nodes, b.frames⟩ :=
  match d with
  | .done => rfl
  | .text content more => by
      rw [Block.segments, foldlM_cons_of_step .text, more.foldlM_segments, Block.nodes,
        List.reverse_cons, List.append_assoc]
      rfl
  | .placeholder w h more => by
      rw [Block.segments, foldlM_cons_of_step (.placeholder h), more.foldlM_segments, Block.nodes,
        List.reverse_cons, List.append_assoc]
      rfl
  | .custom w h more => by
      rw [Block.segments, foldlM_cons_of_step (.custom h), more.foldlM_segments, Block.nodes,
        List.reverse_cons, List.append_assoc]
      rfl
  | .conditional w condition h body branches more => by
      rw [Block.segments, foldlM_cons_of_step (.openIf h), List.foldlM_append,
        body.foldlM_segments, List.append_nil]
      simp only [bind, Except.bind]
      rw [List.foldlM_append, branches.foldlM_segments rfl]
      simp only [bind, Except.bind]
      rw [more.foldlM_segments, Block.nodes, List.reverse_cons, List.append_assoc,
        List.reverse_reverse]
      rfl

/-- Over the rest of a conditional the builder puts it together. -/
theorem Branches.foldlM_segments (d : Branches registry) {f : Frame} {condition : Argument}
    (hf : f.condition = some condition) {nodes : List Node} {fs : List Frame} :
    d.segments.foldlM (Builder.step registry) ⟨nodes, f :: fs⟩ =
      .ok ⟨.conditional (f.arms.reverse ++ (condition, nodes.reverse) :: d.arms) d.last ::
        f.before, fs⟩ :=
  match d with
  | .close w h => by
      rw [Branches.segments, foldlM_cons_of_step (.close h), List.foldlM_nil, Builder.closed, hf]
      rfl
  | .elif w next h body more => by
      rw [Branches.segments, foldlM_cons_of_step (.nextArm h hf), List.foldlM_append,
        body.foldlM_segments, List.append_nil]
      simp only [bind, Except.bind]
      rw [more.foldlM_segments rfl, List.reverse_reverse, List.reverse_cons, List.append_assoc]
      rfl
  | .otherwise w h body last hlast => by
      rw [Branches.segments, foldlM_cons_of_step (.otherwise h hf), List.foldlM_append,
        body.foldlM_segments, List.append_nil]
      simp only [bind, Except.bind]
      rw [foldlM_cons_of_step (.close hlast), List.foldlM_nil, Builder.closed,
        List.reverse_reverse, List.reverse_cons]
      rfl

end

/-! ## Where a block ends

What a segment is to a block can be told from its sign and name alone. -/

/-- What a segment does in the grammar. -/
inductive Role where
  | text
  | placeholder
  | custom
  | opening
  | elif
  | otherwise
  | closing
  deriving DecidableEq, Repr

/-- Whether a block ends before a segment of this role. -/
def Role.stops : Role → Bool
  | elif | otherwise | closing => true
  | _ => false

def WrittenTag.role (w : WrittenTag) : Role :=
  match w.sign with
  | .plain => .placeholder
  | .closing => .closing
  | .opening =>
    if w.name = "if".toList then .opening
    else if w.name = "elif".toList ∨ w.name = "elseif".toList then .elif
    else if w.name = "else".toList then .otherwise
    else .custom

def Segment.role : Segment → Role
  | .text _ => .text
  | .tag w => w.role

/-- A block ends before these segments. -/
def AtStop (segments : List Segment) : Prop := ∀ s ∈ segments.head?, s.role.stops = true

theorem atStop_tag {w : WrittenTag} (h : w.role.stops = true) (more : List Segment) :
    AtStop (.tag w :: more) := by
  rintro s ⟨⟩
  exact h

namespace WrittenTag

variable {w : WrittenTag} {condition : Argument}

theorem IsPlaceholder.role_eq (h : w.IsPlaceholder) : w.role = .placeholder := by
  simp only [role, h.1]

theorem IsCustom.role_eq (h : w.IsCustom registry) : w.role = .custom := by
  have hname := h.2.1
  simp only [List.mem_cons, List.not_mem_nil, or_false, not_or] at hname
  obtain ⟨hif, helif, helseif, helse⟩ := hname
  simp only [role, h.1]
  rw [if_neg hif, if_neg (not_or.mpr ⟨helif, helseif⟩), if_neg helse]

theorem IsIf.role_eq (h : w.IsIf condition) : w.role = .opening := by
  simp only [role, h.1, if_pos h.2.1]

theorem IsElif.role_eq (h : w.IsElif condition) : w.role = .elif := by
  have hif : w.name ≠ "if".toList := by
    rcases h.2.1 with hname | hname <;> rw [hname] <;> decide
  simp only [role, h.1, if_neg hif, if_pos h.2.1]

theorem IsElse.role_eq (h : w.IsElse) : w.role = .otherwise := by
  simp only [role, h.1, h.2.1]
  decide

theorem IsClose.role_eq (h : w.IsClose) : w.role = .closing := by
  simp only [role, h.1]

theorem IsElif.atStop (h : w.IsElif condition) (more : List Segment) : AtStop (.tag w :: more) :=
  atStop_tag (by rw [h.role_eq]; rfl) more

theorem IsElse.atStop (h : w.IsElse) (more : List Segment) : AtStop (.tag w :: more) :=
  atStop_tag (by rw [h.role_eq]; rfl) more

theorem IsClose.atStop (h : w.IsClose) (more : List Segment) : AtStop (.tag w :: more) :=
  atStop_tag (by rw [h.role_eq]; rfl) more

end WrittenTag

/-- Where a block ends, a conditional is open: it is closed there, or has a
condition and so goes on. -/
theorem Step.of_stops {b b' : Builder} {s : Segment} (h : Step registry b s b')
    (hs : s.role.stops = true) :
    ∃ f fs w, b.frames = f :: fs ∧ s = .tag w ∧ (w.IsClose ∨ f.condition ≠ none) := by
  cases h with
  | text => cases hs
  | placeholder hw => simp [Segment.role, hw.role_eq, Role.stops] at hs
  | custom hw => simp [Segment.role, hw.role_eq, Role.stops] at hs
  | openIf hw => simp [Segment.role, hw.role_eq, Role.stops] at hs
  | nextArm hw hf => exact ⟨_, _, _, rfl, rfl, .inr (by simp [hf])⟩
  | otherwise hw hf => exact ⟨_, _, _, rfl, rfl, .inr (by simp [hf])⟩
  | close hw => exact ⟨_, _, _, rfl, rfl, .inl hw⟩

/-- The role of the first segment of a block. -/
def Block.role? : Block registry → Option Role
  | .done => none
  | .text .. => some .text
  | .placeholder .. => some .placeholder
  | .custom .. => some .custom
  | .conditional .. => some .opening

/-- The role of the first segment. -/
def Branches.role : Branches registry → Role
  | .close .. => .closing
  | .elif .. => .elif
  | .otherwise .. => .otherwise

/-- The first of the segments, unless it ends a block, tells how the block
begins. -/
theorem Block.role?_eq (d : Block registry) {rest : List Segment} (hrest : AtStop rest) :
    ((d.segments ++ rest).head?.map Segment.role).filter (!·.stops) = d.role? := by
  cases d with
  | done =>
      rcases rest with _ | ⟨s, more⟩
      · rfl
      · have hs := hrest s rfl
        simp [Block.segments, Block.role?, hs]
  | text content more => rfl
  | placeholder w h more => simp [Block.segments, Block.role?, Segment.role, h.role_eq, Role.stops]
  | custom w h more => simp [Block.segments, Block.role?, Segment.role, h.role_eq, Role.stops]
  | conditional w condition h body branches more =>
      simp [Block.segments, Block.role?, Segment.role, h.role_eq, Role.stops]

theorem Branches.role_eq (d : Branches registry) (rest : List Segment) :
    (d.segments ++ rest).head?.map Segment.role = some d.role := by
  cases d with
  | close w h => simp [Branches.segments, Branches.role, Segment.role, h.role_eq]
  | elif w condition h body more =>
      simp [Branches.segments, Branches.role, Segment.role, h.role_eq]
  | otherwise w h body last hlast =>
      simp [Branches.segments, Branches.role, Segment.role, h.role_eq]

theorem Branches.atStop (d : Branches registry) (rest : List Segment) :
    AtStop (d.segments ++ rest) := by
  cases d with
  | close w h => exact h.atStop _
  | elif w condition h body more => exact h.atStop _
  | otherwise w h body last hlast => exact h.atStop _

/-! ## Finding a derivation -/

theorem foldlM_cons_eq_ok {b b' : Builder} {s : Segment} {segments : List Segment}
    (h : (s :: segments).foldlM (Builder.step registry) b = .ok b') :
    ∃ next, Step registry b s next ∧ segments.foldlM (Builder.step registry) next = .ok b' := by
  rw [List.foldlM_cons] at h
  obtain ⟨next, hstep, hmore⟩ := Pass.bind_eq_ok_iff.mp h
  exact ⟨next, step_eq_ok_iff.mp hstep, hmore⟩

/-- What is left of a run behind a block. -/
theorem Block.foldlM_append {d : Block registry} {rest : List Segment} {b b' : Builder}
    (h : (d.segments ++ rest).foldlM (Builder.step registry) b = .ok b') :
    rest.foldlM (Builder.step registry) ⟨d.nodes.reverse ++ b.nodes, b.frames⟩ = .ok b' := by
  rw [List.foldlM_append, d.foldlM_segments] at h
  exact h

mutual

/-- A run that leaves no more conditionals open than there were goes over a
block, as far as that goes. -/
theorem exists_block (segments : List Segment) {b b' : Builder}
    (h : segments.foldlM (Builder.step registry) b = .ok b')
    (hopen : b'.frames.length ≤ b.frames.length) :
    ∃ (d : Block registry) (rest : List Segment),
      segments = d.segments ++ rest ∧ AtStop rest :=
  match segments with
  | [] => ⟨.done, [], rfl, by simp [AtStop]⟩
  | s :: more => by
      obtain ⟨next, hstep, hmore⟩ := foldlM_cons_eq_ok h
      cases hstep with
      | text =>
          obtain ⟨d, rest, rfl, hrest⟩ := exists_block more hmore hopen
          exact ⟨.text _ d, rest, rfl, hrest⟩
      | placeholder hw =>
          obtain ⟨d, rest, rfl, hrest⟩ := exists_block more hmore hopen
          exact ⟨.placeholder _ hw d, rest, rfl, hrest⟩
      | custom hw =>
          obtain ⟨d, rest, rfl, hrest⟩ := exists_block more hmore hopen
          exact ⟨.custom _ hw d, rest, rfl, hrest⟩
      | openIf hw =>
          obtain ⟨body, rest₁, rfl, hrest₁⟩ :=
            exists_block more hmore (Nat.le_succ_of_le hopen)
          have hbody := Block.foldlM_append hmore
          obtain ⟨branches, rest₂, rfl⟩ := exists_branches rest₁ hrest₁ hbody hopen
          rw [List.foldlM_append, branches.foldlM_segments rfl] at hbody
          obtain ⟨d, rest, rfl, hrest⟩ := exists_block rest₂ hbody hopen
          refine ⟨.conditional _ _ hw body branches d, rest, ?_, hrest⟩
          simp only [Block.segments, List.cons_append, List.append_assoc]
      | nextArm hw hf => exact ⟨.done, _, rfl, hw.atStop _⟩
      | otherwise hw hf => exact ⟨.done, _, rfl, hw.atStop _⟩
      | close hw => exact ⟨.done, _, rfl, hw.atStop _⟩
termination_by segments.length
decreasing_by
  all_goals
    subst_vars
    simp only [List.length_cons, List.length_append]
    omega

/-- A run that closes the innermost conditional goes over the rest of
it. -/
theorem exists_branches (segments : List Segment) (hstop : AtStop segments) {nodes : List Node}
    {f : Frame} {fs : List Frame} {b' : Builder}
    (h : segments.foldlM (Builder.step registry) ⟨nodes, f :: fs⟩ = .ok b')
    (hopen : b'.frames.length ≤ fs.length) :
    ∃ (d : Branches registry) (rest : List Segment), segments = d.segments ++ rest :=
  match segments with
  | [] => by
      obtain rfl := Except.ok.inj h
      exact absurd hopen (by simp)
  | s :: more => by
      have hs : s.role.stops = true := hstop s rfl
      obtain ⟨next, hstep, hmore⟩ := foldlM_cons_eq_ok h
      cases hstep with
      | text => cases hs
      | placeholder hw => simp [Segment.role, hw.role_eq, Role.stops] at hs
      | custom hw => simp [Segment.role, hw.role_eq, Role.stops] at hs
      | openIf hw => simp [Segment.role, hw.role_eq, Role.stops] at hs
      | close hw => exact ⟨.close _ hw, more, rfl⟩
      | nextArm hw hf' =>
          obtain ⟨body, rest₁, rfl, hrest₁⟩ :=
            exists_block more hmore (Nat.le_succ_of_le hopen)
          obtain ⟨branches, rest, rfl⟩ :=
            exists_branches rest₁ hrest₁ (Block.foldlM_append hmore) hopen
          refine ⟨.elif _ _ hw body branches, rest, ?_⟩
          simp only [Branches.segments, List.cons_append, List.append_assoc]
      | otherwise hw hf' =>
          obtain ⟨body, rest₁, rfl, hrest₁⟩ :=
            exists_block more hmore (Nat.le_succ_of_le hopen)
          have hbody := Block.foldlM_append hmore
          rcases rest₁ with _ | ⟨last, rest⟩
          · obtain rfl := Except.ok.inj hbody
            exact absurd hopen (by simp)
          · -- behind the last part only the closing tag goes on
            have hlast : last.role.stops = true := hrest₁ last rfl
            obtain ⟨ended, hended, -⟩ := foldlM_cons_eq_ok hbody
            obtain ⟨f', fs', w', hframes, rfl, hclose⟩ := hended.of_stops hlast
            obtain ⟨rfl, rfl⟩ := List.cons.inj hframes
            have hw' : w'.IsClose := hclose.resolve_right fun hcondition => hcondition rfl
            refine ⟨.otherwise _ hw body _ hw', rest, ?_⟩
            simp only [Branches.segments, List.cons_append, List.append_assoc, List.nil_append]
termination_by segments.length
decreasing_by
  all_goals
    subst_vars
    simp only [List.length_cons, List.length_append]
    omega

end

/-! ## Derivations are unique -/

mutual

/-- Segments tell which block they begin with. -/
theorem Block.eq_of_segments (d d' : Block registry) {rest rest' : List Segment}
    (h : d.segments ++ rest = d'.segments ++ rest') (hrest : AtStop rest)
    (hrest' : AtStop rest') : d = d' ∧ rest = rest' := by
  have hrole : d.role? = d'.role? := by rw [← d.role?_eq hrest, h, d'.role?_eq hrest']
  match d with
  | .done =>
      cases d' with
      | done => exact ⟨rfl, h⟩
      | _ => cases hrole
  | .text content more =>
      cases d' with
      | text content' more' =>
          obtain ⟨hhead, htail⟩ := List.cons.inj h
          obtain ⟨rfl, rfl⟩ := more.eq_of_segments more' htail hrest hrest'
          cases hhead
          exact ⟨rfl, rfl⟩
      | _ => cases hrole
  | .placeholder w hw more =>
      cases d' with
      | placeholder w' hw' more' =>
          obtain ⟨hhead, htail⟩ := List.cons.inj h
          obtain ⟨rfl, rfl⟩ := more.eq_of_segments more' htail hrest hrest'
          cases hhead
          exact ⟨rfl, rfl⟩
      | _ => cases hrole
  | .custom w hw more =>
      cases d' with
      | custom w' hw' more' =>
          obtain ⟨hhead, htail⟩ := List.cons.inj h
          obtain ⟨rfl, rfl⟩ := more.eq_of_segments more' htail hrest hrest'
          cases hhead
          exact ⟨rfl, rfl⟩
      | _ => cases hrole
  | .conditional w condition hw body branches more =>
      cases d' with
      | conditional w' condition' hw' body' branches' more' =>
          simp only [Block.segments, List.cons_append, List.append_assoc] at h
          obtain ⟨hhead, htail⟩ := List.cons.inj h
          cases hhead
          obtain ⟨rfl, hbranches⟩ :=
            body.eq_of_segments body' htail (branches.atStop _) (branches'.atStop _)
          obtain ⟨rfl, hmore⟩ := branches.eq_of_segments branches' hbranches
          obtain ⟨rfl, rfl⟩ := more.eq_of_segments more' hmore hrest hrest'
          obtain ⟨rfl, -⟩ := List.cons.inj (hw.2.2.symm.trans hw'.2.2)
          exact ⟨rfl, rfl⟩
      | _ => cases hrole

theorem Branches.eq_of_segments (d d' : Branches registry) {rest rest' : List Segment}
    (h : d.segments ++ rest = d'.segments ++ rest') : d = d' ∧ rest = rest' := by
  have hrole : d.role = d'.role := by
    have hroles := d.role_eq rest
    rw [h, d'.role_eq rest'] at hroles
    exact (Option.some.inj hroles).symm
  match d with
  | .close w hw =>
      cases d' with
      | close w' hw' =>
          cases h
          exact ⟨rfl, rfl⟩
      | _ => cases hrole
  | .elif w condition hw body more =>
      cases d' with
      | elif w' condition' hw' body' more' =>
          simp only [Branches.segments, List.cons_append, List.append_assoc] at h
          obtain ⟨hhead, htail⟩ := List.cons.inj h
          cases hhead
          obtain ⟨rfl, hmore⟩ := body.eq_of_segments body' htail (more.atStop _) (more'.atStop _)
          obtain ⟨rfl, rfl⟩ := more.eq_of_segments more' hmore
          obtain ⟨rfl, -⟩ := List.cons.inj (hw.2.2.symm.trans hw'.2.2)
          exact ⟨rfl, rfl⟩
      | _ => cases hrole
  | .otherwise w hw body last hlast =>
      cases d' with
      | otherwise w' hw' body' last' hlast' =>
          simp only [Branches.segments, List.cons_append, List.append_assoc] at h
          obtain ⟨hhead, htail⟩ := List.cons.inj h
          cases hhead
          obtain ⟨rfl, hend⟩ := body.eq_of_segments body' htail (hlast.atStop _) (hlast'.atStop _)
          cases hend
          exact ⟨rfl, rfl⟩
      | _ => cases hrole

end

/-! ## Reading a template -/

/-- A derivation of a source: its segments are those of a block. -/
structure Derivation (registry : Registry) (source : Text) where
  block : Block registry
  cut : CutInto .start source block.segments

theorem Derivation.compile_eq {source : Text} (d : Derivation registry source) :
    compile registry source = .ok ⟨d.block.nodes⟩ := by
  rw [compile, segmentsFrom_eq_ok_iff.mpr d.cut]
  simp only [bind, Except.bind]
  rw [d.block.foldlM_segments]
  simp [Builder.finish, Builder.start, pure, Except.pure]

/-- Segments that are read to the end are those of a block. -/
theorem exists_block_of_finish {segments : List Segment} {b : Builder} {nodes : List Node}
    (h : segments.foldlM (Builder.step registry) .start = .ok b) (hfinish : b.finish = .ok nodes) :
    ∃ d : Block registry, segments = d.segments := by
  have hframes : b.frames = [] := by
    rw [Builder.finish] at hfinish
    split at hfinish
    · assumption
    · cases hfinish
  obtain ⟨d, rest, rfl, hrest⟩ := exists_block segments h (by rw [hframes]; exact Nat.zero_le _)
  rcases rest with _ | ⟨s, more⟩
  · exact ⟨d, List.append_nil _⟩
  · -- no conditional is open for this tag to go on with or to close
    have hs : s.role.stops = true := hrest s rfl
    obtain ⟨next, hstep, -⟩ := foldlM_cons_eq_ok (Block.foldlM_append h)
    obtain ⟨f, fs, w, hopen, -⟩ := hstep.of_stops hs
    cases hopen

theorem exists_derivation {source : Text} {t : Template} (h : compile registry source = .ok t) :
    Nonempty (Derivation registry source) := by
  obtain ⟨segments, hsegments, h⟩ := Pass.bind_eq_ok_iff.mp h
  obtain ⟨b, hfold, h⟩ := Pass.bind_eq_ok_iff.mp h
  obtain ⟨nodes, hfinish, -⟩ := Pass.bind_eq_ok_iff.mp h
  obtain ⟨d, rfl⟩ := exists_block_of_finish hfold hfinish
  exact ⟨d, segmentsFrom_eq_ok_iff.mp hsegments⟩

theorem Derivation.eq {source : Text} (d d' : Derivation registry source) : d = d' := by
  obtain ⟨block, cut⟩ := d
  obtain ⟨block', cut'⟩ := d'
  have hsegments : block.segments = block'.segments :=
    Except.ok.inj
      ((segmentsFrom_eq_ok_iff.mpr cut).symm.trans (segmentsFrom_eq_ok_iff.mpr cut'))
  have hend : AtStop [] := by simp [AtStop]
  obtain ⟨rfl, -⟩ := block.eq_of_segments block' (congrArg (· ++ []) hsegments) hend hend
  rfl

/-- A template can be read just if it has a derivation, which is the only
one, and is read as the nodes of that derivation. -/
theorem compile_grammar (registry : Registry) (source : Text) :
    ((∃ t, compile registry source = .ok t) ↔ Nonempty (Derivation registry source)) ∧
    Subsingleton (Derivation registry source) ∧
    ∀ d : Derivation registry source, compile registry source = .ok ⟨d.block.nodes⟩ := by
  refine ⟨⟨fun ⟨t, h⟩ => exists_derivation h, fun ⟨d⟩ => ⟨_, d.compile_eq⟩⟩,
    ⟨Derivation.eq⟩, Derivation.compile_eq⟩

end Template

end Tsql
