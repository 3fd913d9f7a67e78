import Tsql.Proofs.TemplateGrammar
import Tsql.Render

/-!
# What can go wrong when a template is rendered

Rendering looks up names and tags as it reaches them, and has an outcome
for a tag that is not there. For a template that was read with the same
registry this one is never met: the grammar asks every tag to be known and
to have as many arguments as parameters, at every depth
(`Block.knows_uses`). What remains is the lack of a name.

A tag is free to do anything with the wrong number of values. That it is
never given them is said of rendering itself (`renderNodes_congr`): tags
that differ only there render the template alike.
-/

namespace Tsql

namespace Template

/-! ## What is used in a template -/

/-- What rendering may ask for: a name, and a tag for its arguments. -/
inductive Use where
  | name (path : Text) (position : Position)
  | tag (name : Text) (arguments : List Argument)

def Argument.uses : Argument → List Use
  | .variableName path position => [.name path position]
  | .literal _ => []

mutual

/-- All that a part uses, whether or not it is reached. -/
def Node.uses : Node → List Use
  | .text _ => []
  | .placeholder path position => [.name path position]
  | .conditional arms none => armsUses arms
  | .conditional arms (some body) => armsUses arms ++ nodesUses body
  | .tag name arguments => .tag name arguments :: arguments.flatMap Argument.uses

def armsUses : List (Argument × List Node) → List Use
  | [] => []
  | (condition, body) :: more => condition.uses ++ nodesUses body ++ armsUses more

def nodesUses : List Node → List Use
  | [] => []
  | node :: more => node.uses ++ nodesUses more

end

end Template

def Template.uses (t : Template) : List Template.Use := Template.nodesUses t.nodes

open Template (Use)

/-- The tags that are used are there, for as many arguments. -/
def Registry.Knows (registry : Registry) (uses : List Use) : Prop :=
  ∀ name arguments, .tag name arguments ∈ uses →
    ∃ tag, registry.find? name = some tag ∧ arguments.length = tag.parameters.length

/-- The tags of a registry are in the other one too, and do the same with
the right number of values. -/
def Registry.AgreesWith (registry other : Registry) : Prop :=
  ∀ name tag, registry.find? name = some tag →
    ∃ tag', other.find? name = some tag' ∧
      ∀ values, values.length = tag.parameters.length → tag'.render values = tag.render values

namespace Registry

variable {registry : Registry} {uses more : List Use}

theorem knows_append :
    registry.Knows (uses ++ more) ↔ registry.Knows uses ∧ registry.Knows more := by
  simp only [Knows, List.mem_append, or_imp, forall_and]

theorem knows_argument (a : Template.Argument) : registry.Knows a.uses := by
  intro name arguments h
  cases a <;> simp [Template.Argument.uses] at h

theorem knows_tag {name : Text} {arguments : List Template.Argument} {tag : Tag}
    (hfind : registry.find? name = some tag)
    (harity : arguments.length = tag.parameters.length) :
    registry.Knows (Template.Node.tag name arguments).uses := by
  intro name' arguments' h
  rcases List.mem_cons.mp h with h | h
  · cases h
    exact ⟨tag, hfind, harity⟩
  · obtain ⟨a, -, ha⟩ := List.mem_flatMap.mp h
    exact knows_argument a _ _ ha

end Registry

namespace Template

variable {registry : Registry} {env : Environment}

/-! ## Tags of a template that was read -/

mutual

/-- A derivation uses no tag but those of its registry. -/
theorem Block.knows_uses (d : Block registry) : registry.Knows (nodesUses d.nodes) :=
  match d with
  | .done => by simp [Block.nodes, nodesUses, Registry.Knows]
  | .text content more => more.knows_uses
  | .placeholder w h more => by
      refine Registry.knows_append.mpr ⟨?_, more.knows_uses⟩
      simp [Node.uses, Registry.Knows]
  | .custom w h more => by
      obtain ⟨-, -, tag, hfind, harity⟩ := h
      exact Registry.knows_append.mpr ⟨Registry.knows_tag hfind harity, more.knows_uses⟩
  | .conditional w condition h body branches more => by
      obtain ⟨harms, hlast⟩ := branches.knows_uses
      have hall : registry.Knows (armsUses ((condition, body.nodes) :: branches.arms)) :=
        Registry.knows_append.mpr
          ⟨Registry.knows_append.mpr ⟨Registry.knows_argument condition, body.knows_uses⟩, harms⟩
      refine Registry.knows_append.mpr ⟨?_, more.knows_uses⟩
      cases hbody : branches.last with
      | none => exact hall
      | some last => exact Registry.knows_append.mpr ⟨hall, hlast last hbody⟩

theorem Branches.knows_uses (d : Branches registry) :
    registry.Knows (armsUses d.arms) ∧ ∀ body ∈ d.last, registry.Knows (nodesUses body) :=
  match d with
  | .close w h => by simp [Branches.arms, Branches.last, armsUses, Registry.Knows]
  | .elif w condition h body more => by
      obtain ⟨harms, hlast⟩ := more.knows_uses
      exact ⟨Registry.knows_append.mpr
        ⟨Registry.knows_append.mpr ⟨Registry.knows_argument condition, body.knows_uses⟩, harms⟩,
        hlast⟩
  | .otherwise w h body last hlast => by
      refine ⟨by simp [Branches.arms, armsUses, Registry.Knows], ?_⟩
      rintro nodes ⟨⟩
      exact body.knows_uses

end

theorem knows_of_compile {source : Text} {t : Template} (h : compile registry source = .ok t) :
    registry.Knows t.uses := by
  obtain ⟨d⟩ := exists_derivation h
  obtain rfl := Except.ok.inj (d.compile_eq.symm.trans h)
  exact d.block.knows_uses

/-! ## Outcomes -/

/-- A result, unless a name is used that the environment lacks. -/
inductive OnlyLacks (env : Environment) (uses : List Use) {α : Type} : Except Error α → Prop where
  | ok (a : α) : OnlyLacks env uses (.ok a)
  | lacks {path : Text} {position : Position} (used : .name path position ∈ uses)
      (unknown : env.lookup path = none) :
      OnlyLacks env uses (.error (.unknownVariable path position))

namespace OnlyLacks

variable {α β : Type} {uses more : List Use} {x : Except Error α}

theorem mono (h : OnlyLacks env uses x) (hsub : uses ⊆ more) : OnlyLacks env more x := by
  cases h with
  | ok a => exact .ok a
  | lacks used unknown => exact .lacks (hsub used) unknown

theorem bind {f : α → Except Error β} (h : OnlyLacks env uses x)
    (hf : ∀ a, OnlyLacks env uses (f a)) : OnlyLacks env uses (x >>= f) := by
  cases h with
  | ok a => exact hf a
  | lacks used unknown => exact .lacks used unknown

theorem exists_ok (h : OnlyLacks env uses x)
    (hknown : ∀ path position, .name path position ∈ uses → env.lookup path ≠ none) :
    ∃ a, x = .ok a := by
  cases h with
  | ok a => exact ⟨a, rfl⟩
  | lacks used unknown => exact absurd unknown (hknown _ _ used)

end OnlyLacks

theorem onlyLacks_resolveName (path : Text) (position : Position) :
    OnlyLacks env [.name path position] (resolveName env path position) := by
  rw [resolveName]
  split
  · exact .ok _
  · rename_i hunknown
    exact .lacks List.mem_cons_self hunknown

theorem Argument.onlyLacks_resolve (a : Argument) : OnlyLacks env a.uses (a.resolve env) := by
  cases a with
  | literal value => exact .ok value
  | variableName path position => exact onlyLacks_resolveName path position

theorem onlyLacks_resolveAll (arguments : List Argument) :
    OnlyLacks env (arguments.flatMap Argument.uses) (resolveAll env arguments) := by
  induction arguments with
  | nil => exact .ok []
  | cons a more ih =>
      refine (a.onlyLacks_resolve.mono (List.subset_append_left ..)).bind fun value => ?_
      exact (ih.mono (List.subset_append_right ..)).bind fun values => .ok _

/-- A tag is given a value for each argument. -/
theorem length_of_resolveAll {arguments : List Argument} {values : List Json}
    (h : resolveAll env arguments = .ok values) : values.length = arguments.length := by
  induction arguments generalizing values with
  | nil =>
      obtain rfl := Except.ok.inj h
      rfl
  | cons a more ih =>
      obtain ⟨value, -, h⟩ := Pass.bind_eq_ok_iff.mp h
      obtain ⟨rest, hrest, h⟩ := Pass.bind_eq_ok_iff.mp h
      obtain rfl := Except.ok.inj h
      rw [List.length_cons, List.length_cons, ih hrest]

theorem onlyLacks_renderTag {name : Text} {arguments : List Argument}
    (h : registry.Knows (Node.tag name arguments).uses) :
    OnlyLacks env (Node.tag name arguments).uses (renderTag env registry name arguments) := by
  obtain ⟨tag, hfind, -⟩ := h name arguments List.mem_cons_self
  rw [renderTag, hfind]
  exact ((onlyLacks_resolveAll arguments).mono (List.subset_cons_self ..)).bind fun values => .ok _

mutual

theorem Node.onlyLacks_render (node : Node) (h : registry.Knows node.uses) :
    OnlyLacks env node.uses (node.render env registry) :=
  match node with
  | .text content => .ok content
  | .placeholder path position => (onlyLacks_resolveName path position).bind fun value => .ok _
  | .conditional arms none => (onlyLacks_renderArms arms h).bind fun taken => .ok _
  | .conditional arms (some body) => by
      obtain ⟨harms, hbody⟩ := Registry.knows_append.mp h
      refine ((onlyLacks_renderArms arms harms).mono (List.subset_append_left ..)).bind
        fun taken => ?_
      cases taken with
      | some text => exact .ok text
      | none => exact (onlyLacks_renderNodes body hbody).mono (List.subset_append_right ..)
  | .tag name arguments => onlyLacks_renderTag h

theorem onlyLacks_renderArms (arms : List (Argument × List Node))
    (h : registry.Knows (armsUses arms)) :
    OnlyLacks env (armsUses arms) (renderArms env registry arms) :=
  match arms with
  | [] => .ok none
  | (condition, body) :: more => by
      obtain ⟨hfirst, hmore⟩ := Registry.knows_append.mp h
      obtain ⟨-, hbody⟩ := Registry.knows_append.mp hfirst
      refine (condition.onlyLacks_resolve.mono ?_).bind fun value => ?_
      · exact List.subset_append_of_subset_left _ (List.subset_append_left ..)
      split
      · refine ((onlyLacks_renderNodes body hbody).mono ?_).bind fun text => .ok _
        exact List.subset_append_of_subset_left _ (List.subset_append_right ..)
      · exact (onlyLacks_renderArms more hmore).mono (List.subset_append_right ..)

/-- Where the tags are known, rendering fails for want of a name only. -/
theorem onlyLacks_renderNodes (nodes : List Node) (h : registry.Knows (nodesUses nodes)) :
    OnlyLacks env (nodesUses nodes) (renderNodes env registry nodes) :=
  match nodes with
  | [] => .ok []
  | node :: more => by
      obtain ⟨hnode, hmore⟩ := Registry.knows_append.mp h
      refine ((node.onlyLacks_render hnode).mono (List.subset_append_left ..)).bind fun text => ?_
      exact ((onlyLacks_renderNodes more hmore).mono (List.subset_append_right ..)).bind
        fun rest => .ok _

end

/-! ## Tags are given as many values as they have parameters -/

theorem renderTag_congr {other : Registry} (hagrees : registry.AgreesWith other) {name : Text}
    {arguments : List Argument} (h : registry.Knows (Node.tag name arguments).uses) :
    renderTag env other name arguments = renderTag env registry name arguments := by
  obtain ⟨tag, hfind, harity⟩ := h name arguments List.mem_cons_self
  obtain ⟨tag', hfind', hrender⟩ := hagrees name tag hfind
  simp only [renderTag, hfind, hfind']
  cases hvalues : resolveAll env arguments with
  | error e => rfl
  | ok values =>
      have hlength := (length_of_resolveAll hvalues).trans harity
      exact congrArg Except.ok (hrender values hlength)

mutual

theorem Node.render_congr {other : Registry} (hagrees : registry.AgreesWith other) (node : Node)
    (h : registry.Knows node.uses) : node.render env other = node.render env registry :=
  match node with
  | .text content => rfl
  | .placeholder path position => rfl
  | .conditional arms none => by rw [Node.render, Node.render, renderArms_congr hagrees arms h]
  | .conditional arms (some body) => by
      obtain ⟨harms, hbody⟩ := Registry.knows_append.mp h
      rw [Node.render, Node.render, renderArms_congr hagrees arms harms,
        renderNodes_congr hagrees body hbody]
  | .tag name arguments => renderTag_congr hagrees h

theorem renderArms_congr {other : Registry} (hagrees : registry.AgreesWith other)
    (arms : List (Argument × List Node)) (h : registry.Knows (armsUses arms)) :
    renderArms env other arms = renderArms env registry arms :=
  match arms with
  | [] => rfl
  | (condition, body) :: more => by
      obtain ⟨hfirst, hmore⟩ := Registry.knows_append.mp h
      obtain ⟨-, hbody⟩ := Registry.knows_append.mp hfirst
      rw [renderArms, renderArms, renderNodes_congr hagrees body hbody,
        renderArms_congr hagrees more hmore]

/-- What the tags do with any other number of values is never asked. -/
theorem renderNodes_congr {other : Registry} (hagrees : registry.AgreesWith other)
    (nodes : List Node) (h : registry.Knows (nodesUses nodes)) :
    renderNodes env other nodes = renderNodes env registry nodes :=
  match nodes with
  | [] => rfl
  | node :: more => by
      obtain ⟨hnode, hmore⟩ := Registry.knows_append.mp h
      rw [renderNodes, renderNodes, Node.render_congr hagrees node hnode,
        renderNodes_congr hagrees more hmore]

end

/-- A template that can be read is rendered, unless it uses a name that the
environment lacks; its tags are there and are given as many values as they
have parameters, whatever they would do with others. -/
theorem render_of_compile {source : Text} {t : Template} (h : compile registry source = .ok t)
    (env : Environment) :
    ((∃ text, t.render env registry = .ok text) ∨
      ∃ path position, .name path position ∈ t.uses ∧ env.lookup path = none ∧
        t.render env registry = .error (.unknownVariable path position)) ∧
    ((∀ path position, .name path position ∈ t.uses → env.lookup path ≠ none) →
      ∃ text, t.render env registry = .ok text) ∧
    (∀ name arguments, .tag name arguments ∈ t.uses →
      ∃ tag, registry.find? name = some tag ∧
        ∀ values, resolveAll env arguments = .ok values →
          values.length = tag.parameters.length) ∧
    ∀ other, registry.AgreesWith other → t.render env other = t.render env registry := by
  have hknows := knows_of_compile h
  have houtcome : OnlyLacks env t.uses (t.render env registry) := onlyLacks_renderNodes _ hknows
  refine ⟨?_, houtcome.exists_ok, ?_, fun other hagrees => renderNodes_congr hagrees _ hknows⟩
  · generalize hrender : t.render env registry = outcome
    rw [hrender] at houtcome
    cases houtcome with
    | ok text => exact .inl ⟨text, rfl⟩
    | @lacks path position used unknown => exact .inr ⟨path, position, used, unknown, rfl⟩
  · intro name arguments hused
    obtain ⟨tag, hfind, harity⟩ := hknows name arguments hused
    exact ⟨tag, hfind, fun values hvalues => (length_of_resolveAll hvalues).trans harity⟩

/-- A tag in one arm and a placeholder in the other. -/
def eitherArm : Text :=
  ("\x7b\x7b#if A\x7d\x7d\x7b\x7b#comment_if B\x7d\x7d".toList ++
    "\x7b\x7b#else\x7d\x7d\x7b\x7bC\x7d\x7d\x7b\x7b/if\x7d\x7d".toList)

/-- A tag that gives a question mark for the wrong number of values. -/
def strictTag (tag : Tag) : Tag :=
  { tag with render := fun values =>
      if values.length = tag.parameters.length then tag.render values else ['?'] }

def strictTags : Registry := ⟨Registry.standard.tags.map strictTag⟩

theorem agreesWith_strictTags : Registry.standard.AgreesWith strictTags := by
  intro name tag hfind
  refine ⟨strictTag tag, ?_, fun values hvalues => if_pos hvalues⟩
  rw [Registry.find?] at hfind
  rw [strictTags, Registry.find?, List.find?_map]
  exact Option.map_eq_some_iff.mpr ⟨tag, hfind, rfl⟩

def truthsABC : Environment := ⟨[(['A'], .bool true), (['B'], .bool true), (['C'], .null)]⟩

def truthA : Environment := ⟨[(['A'], .bool true)]⟩

theorem render_of_compile_eitherArm :
    ∃ t, compile .standard eitherArm = .ok t ∧
      t.render truthsABC strictTags = .ok ['/', '*'] ∧
      .name ['B'] ⟨1, 24⟩ ∈ t.uses ∧
      t.render truthA .standard = .error (.unknownVariable ['B'] ⟨1, 24⟩) := by
  obtain ⟨t, ht⟩ : ∃ t, compile .standard eitherArm = .ok t :=
    ⟨_, Pass.eq_ok_of_toOption (Option.some_get (by decide +kernel)).symm⟩
  have hexpand : ∀ env, expand .standard env eitherArm = t.render env .standard := by
    intro env
    rw [expand, ht]
    rfl
  have hfull : expand .standard truthsABC eitherArm = .ok ['/', '*'] := by decide +kernel
  have hlack : expand .standard truthA eitherArm = .error (.unknownVariable ['B'] ⟨1, 24⟩) := by
    decide +kernel
  rw [hexpand] at hfull hlack
  obtain ⟨-, -, -, hagrees⟩ := render_of_compile ht truthsABC
  obtain ⟨⟨text, hok⟩ | ⟨path, position, hused, -, herror⟩, -⟩ := render_of_compile ht truthA
  · rw [hlack] at hok
    cases hok
  · rw [hlack] at herror
    cases herror
    exact ⟨t, ht, (hagrees _ agreesWith_strictTags).trans hfull, hused, hlack⟩

end Template

end Tsql
