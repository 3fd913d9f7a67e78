import Tsql.Proofs.PathParts
import Tsql.Proofs.Trace
import Tsql.Render

/-!
# The names that a rendering looks up

Rendering is written against an environment, as if it were given all of it.
Here it is written without one, as a computation that asks for the value of
a name when it comes to it and goes on with the answer (`Looking`). Run
against an environment it is the rendering (`run_nodesAsking`), so that all
a rendering learns of its environment are the answers, and environments
that give the same answers are one to it (`Looking.agree`).

Which names are asked for is said once more without the computation:
`Reached` has one constructor for each place where a rendering comes to a
name. Of a conditional these are the conditions up to the first true one
and the body behind it.

What has been found stays when keys are added that were not there, unless
one of them is itself the name: a name is looked up as a whole first, and
one with dots may have led into an object before (`lookup_merge`).
-/

namespace Tsql

namespace Template

/-! ## Computations that look names up -/

/-- A computation that comes to an end, gives up, or asks for the value of a
name and goes on with the answer. -/
inductive Looking (α : Type) where
  | done (a : α)
  | fail (e : Error)
  | ask (name : Text) (go : Option Json → Looking α)

namespace Looking

variable {α β : Type} {lookup lookup' : Text → Option Json}

def run (lookup : Text → Option Json) : Looking α → Except Error α
  | done a => .ok a
  | fail e => .error e
  | ask name go => (go (lookup name)).run lookup

/-- The names that are asked for, in order. -/
def names (lookup : Text → Option Json) : Looking α → List Text
  | done _ => []
  | fail _ => []
  | ask name go => name :: (go (lookup name)).names lookup

protected def bind : Looking α → (α → Looking β) → Looking β
  | done a, f => f a
  | fail e, _ => fail e
  | ask name go, f => ask name fun value => (go value).bind f

instance : Monad Looking where
  pure := done
  bind := Looking.bind

theorem run_bind (x : Looking α) (f : α → Looking β) :
    (x >>= f).run lookup = x.run lookup >>= fun a => (f a).run lookup := by
  change (x.bind f).run lookup = _
  induction x with
  | done a => rfl
  | fail e => rfl
  | ask name go ih => exact ih (lookup name)

/-- What is asked before goes before; behind a failure nothing is asked. -/
theorem mem_names_bind {x : Looking α} {f : α → Looking β} {name : Text} :
    name ∈ (x >>= f).names lookup ↔
      name ∈ x.names lookup ∨ ∃ a, x.run lookup = .ok a ∧ name ∈ (f a).names lookup := by
  change name ∈ (x.bind f).names lookup ↔ _
  induction x with
  | done a => simp [Looking.bind, names, run]
  | fail e => simp [Looking.bind, names, run]
  | ask asked go ih => simp [Looking.bind, names, run, ih, or_assoc]

/-- A computation depends on the answers it gets. -/
theorem agree {x : Looking α} (h : ∀ name ∈ x.names lookup, lookup' name = lookup name) :
    x.run lookup' = x.run lookup ∧ x.names lookup' = x.names lookup := by
  induction x with
  | done a => exact ⟨rfl, rfl⟩
  | fail e => exact ⟨rfl, rfl⟩
  | ask name go ih =>
      have hname : lookup' name = lookup name := h name List.mem_cons_self
      have hmore := ih (lookup name) fun other hother => h other (List.mem_cons_of_mem name hother)
      rw [run, run, names, names, hname, hmore.1, hmore.2]
      exact ⟨rfl, rfl⟩

/-- Without a value for a name it asks for, the computation gives up. -/
def Needy : Looking α → Prop
  | done _ => True
  | fail _ => True
  | ask _ go => (∃ e, go none = fail e) ∧ ∀ value, (go (some value)).Needy

theorem Needy.bind {x : Looking α} {f : α → Looking β} (hx : x.Needy) (hf : ∀ a, (f a).Needy) :
    (x >>= f).Needy := by
  change (x.bind f).Needy
  induction x with
  | done a => exact hf a
  | fail e => trivial
  | ask name go ih =>
      obtain ⟨⟨e, hnone⟩, hsome⟩ := hx
      exact ⟨⟨e, congrArg (Looking.bind · f) hnone⟩, fun value => ih (some value) (hsome value)⟩

theorem Needy.found {x : Looking α} (hx : x.Needy) {a : α} (h : x.run lookup = .ok a) :
    ∀ name ∈ x.names lookup, lookup name ≠ none := by
  induction x with
  | done a => simp [names]
  | fail e => simp [names]
  | ask name go ih =>
      obtain ⟨⟨e, hnone⟩, hsome⟩ := hx
      rw [run] at h
      rw [names]
      cases hname : lookup name with
      | none =>
          rw [hname, hnone] at h
          cases h
      | some value =>
          rw [hname] at h
          intro other hother
          rcases List.mem_cons.mp hother with rfl | hother
          · rw [hname]
            exact Option.some_ne_none value
          · exact ih (some value) (hsome value) h other hother

end Looking

open Looking (done fail ask run_bind mem_names_bind Needy)

/-! ## Rendering as such a computation -/

def askName (name : Text) (position : Position) : Looking Json :=
  ask name fun
    | some value => done value
    | none => fail (.unknownVariable name position)

def Argument.asking : Argument → Looking Json
  | .literal value => done value
  | .variableName path position => askName path position

def askAll : List Argument → Looking (List Json)
  | [] => done []
  | a :: more => do
    let value ← a.asking
    let values ← askAll more
    return value :: values

def askTag (registry : Registry) (name : Text) (arguments : List Argument) : Looking Text :=
  match registry.find? name with
  | none => fail (.unknownTag name ⟨0, 0⟩)
  | some tag => do
    let values ← askAll arguments
    return tag.render values

mutual

def Node.asking (registry : Registry) : Node → Looking Text
  | .text content => done content
  | .placeholder path position => do
    let value ← askName path position
    return shown value
  | .conditional arms none => do
    let taken ← armsAsking registry arms
    return taken.getD []
  | .conditional arms (some body) => do
    let taken ← armsAsking registry arms
    match taken with
    | some text => return text
    | none => nodesAsking registry body
  | .tag name arguments => askTag registry name arguments

def armsAsking (registry : Registry) : List (Argument × List Node) → Looking (Option Text)
  | [] => done none
  | (condition, body) :: more => do
    let value ← condition.asking
    if value.isTruthy then
      let text ← nodesAsking registry body
      return some text
    else armsAsking registry more

def nodesAsking (registry : Registry) : List Node → Looking Text
  | [] => done []
  | node :: more => do
    let text ← node.asking registry
    let rest ← nodesAsking registry more
    return text ++ rest

end

/-- The rendering of a template before an environment is given. -/
def asking (t : Template) (registry : Registry) : Looking Text := nodesAsking registry t.nodes

variable {registry : Registry} {env : Environment}

theorem run_askName (name : Text) (position : Position) :
    (askName name position).run env.lookup = resolveName env name position := by
  rw [askName, Looking.run, resolveName]
  cases env.lookup name <;> rfl

theorem Argument.run_asking (a : Argument) : a.asking.run env.lookup = a.resolve env := by
  cases a with
  | literal value => rfl
  | variableName path position => exact run_askName path position

theorem run_askAll (arguments : List Argument) :
    (askAll arguments).run env.lookup = resolveAll env arguments := by
  induction arguments with
  | nil => rfl
  | cons a more ih =>
      rw [askAll, resolveAll, run_bind, a.run_asking]
      simp only [run_bind, ih]
      rfl

theorem run_askTag (name : Text) (arguments : List Argument) :
    (askTag registry name arguments).run env.lookup = renderTag env registry name arguments := by
  rw [askTag, renderTag]
  cases registry.find? name with
  | none => rfl
  | some tag =>
      simp only [run_bind, run_askAll]
      rfl

mutual

theorem Node.run_asking (node : Node) :
    (node.asking registry).run env.lookup = node.render env registry :=
  match node with
  | .text content => rfl
  | .placeholder path position => by
      rw [Node.asking, Node.render, run_bind, run_askName]
      rfl
  | .conditional arms none => by
      rw [Node.asking, Node.render, run_bind, run_armsAsking arms]
      rfl
  | .conditional arms (some body) => by
      rw [Node.asking, Node.render, run_bind, run_armsAsking arms]
      congr 1
      funext taken
      cases taken with
      | some text => rfl
      | none => exact run_nodesAsking body
  | .tag name arguments => run_askTag name arguments

theorem run_armsAsking (arms : List (Argument × List Node)) :
    (armsAsking registry arms).run env.lookup = renderArms env registry arms :=
  match arms with
  | [] => rfl
  | (condition, body) :: more => by
      rw [armsAsking, renderArms, run_bind, condition.run_asking]
      congr 1
      funext value
      split
      · rw [run_bind, run_nodesAsking body]
        rfl
      · exact run_armsAsking more

/-- Asking an environment is rendering. -/
theorem run_nodesAsking (nodes : List Node) :
    (nodesAsking registry nodes).run env.lookup = renderNodes env registry nodes :=
  match nodes with
  | [] => rfl
  | node :: more => by
      rw [nodesAsking, renderNodes, run_bind, node.run_asking]
      congr 1
      funext text
      rw [run_bind, run_nodesAsking more]
      rfl

end

/-! ## What is asked for is needed -/

theorem needy_askName (name : Text) (position : Position) : (askName name position).Needy :=
  ⟨⟨_, rfl⟩, fun _ => trivial⟩

theorem Argument.needy_asking (a : Argument) : a.asking.Needy := by
  cases a with
  | literal value => trivial
  | variableName path position => exact needy_askName path position

theorem needy_askAll (arguments : List Argument) : (askAll arguments).Needy := by
  induction arguments with
  | nil => trivial
  | cons a more ih => exact a.needy_asking.bind fun _ => ih.bind fun _ => trivial

theorem needy_askTag (name : Text) (arguments : List Argument) :
    (askTag registry name arguments).Needy := by
  rw [askTag]
  cases registry.find? name with
  | none => trivial
  | some tag => exact (needy_askAll arguments).bind fun _ => trivial

mutual

theorem Node.needy_asking (node : Node) : (node.asking registry).Needy :=
  match node with
  | .text _ => trivial
  | .placeholder path position => (needy_askName path position).bind fun _ => trivial
  | .conditional arms none => (needy_armsAsking arms).bind fun _ => trivial
  | .conditional arms (some body) => (needy_armsAsking arms).bind fun taken =>
      match taken with
      | some _ => trivial
      | none => needy_nodesAsking body
  | .tag name arguments => needy_askTag name arguments

theorem needy_armsAsking (arms : List (Argument × List Node)) :
    (armsAsking registry arms).Needy :=
  match arms with
  | [] => trivial
  | (condition, body) :: more => by
      refine condition.needy_asking.bind fun value => ?_
      split
      · exact (needy_nodesAsking body).bind fun _ => trivial
      · exact needy_armsAsking more

/-- A rendering does without no name that it looks up. -/
theorem needy_nodesAsking (nodes : List Node) : (nodesAsking registry nodes).Needy :=
  match nodes with
  | [] => trivial
  | node :: more =>
      node.needy_asking.bind fun _ => (needy_nodesAsking more).bind fun _ => trivial

end

/-! ## Names that are reached -/

/-- The value of an argument is known and true, or known and false. -/
def Argument.Has (env : Environment) (truth : Bool) (a : Argument) : Prop :=
  ∃ value, a.resolve env = .ok value ∧ value.isTruthy = truth

/-- Rendering the nodes comes to a name. -/
inductive Reached (env : Environment) (registry : Registry) : List Node → Text → Prop where
  | behind {node : Node} {more : List Node} {text name : Text}
      (rendered : node.render env registry = .ok text) (reached : Reached env registry more name) :
      Reached env registry (node :: more) name
  | placeholder {name : Text} {position : Position} {more : List Node} :
      Reached env registry (.placeholder name position :: more) name
  /-- An argument of a tag that there is, those before it having values -/
  | argument {tag name : Text} {before behind : List Argument} {position : Position}
      {more : List Node} (known : registry.find? tag ≠ none)
      (found : ∀ a ∈ before, ∃ value, a.resolve env = .ok value) :
      Reached env registry
        (.tag tag (before ++ .variableName name position :: behind) :: more) name
  /-- The condition of an arm, no arm before it being taken -/
  | condition {before behind : List (Argument × List Node)} {name : Text} {position : Position}
      {body : List Node} {otherwise : Option (List Node)} {more : List Node}
      (untaken : ∀ arm ∈ before, arm.1.Has env false) :
      Reached env registry
        (.conditional (before ++ (.variableName name position, body) :: behind) otherwise :: more)
        name
  /-- In the body of the first arm whose condition is true -/
  | arm {before behind : List (Argument × List Node)} {condition : Argument} {name : Text}
      {body : List Node} {otherwise : Option (List Node)} {more : List Node}
      (untaken : ∀ arm ∈ before, arm.1.Has env false) (taken : condition.Has env true)
      (reached : Reached env registry body name) :
      Reached env registry
        (.conditional (before ++ (condition, body) :: behind) otherwise :: more) name
  /-- In the last body, no arm being taken -/
  | otherwise {arms : List (Argument × List Node)} {name : Text} {body more : List Node}
      (untaken : ∀ arm ∈ arms, arm.1.Has env false) (reached : Reached env registry body name) :
      Reached env registry (.conditional arms (some body) :: more) name

theorem mem_names_askName {name other : Text} {position : Position} :
    other ∈ (askName name position).names env.lookup ↔ other = name := by
  rw [askName, Looking.names]
  cases env.lookup name <;> simp [Looking.names]

theorem Argument.mem_names_asking {a : Argument} {name : Text} :
    name ∈ a.asking.names env.lookup ↔ ∃ position, a = .variableName name position := by
  cases a with
  | literal value => simp [Argument.asking, Looking.names]
  | variableName path position =>
      rw [Argument.asking, mem_names_askName]
      simp [eq_comm]

theorem mem_names_askAll {arguments : List Argument} {name : Text} :
    name ∈ (askAll arguments).names env.lookup ↔
      ∃ before position behind, arguments = before ++ .variableName name position :: behind ∧
        ∀ a ∈ before, ∃ value, a.resolve env = .ok value := by
  induction arguments with
  | nil => simp [askAll, Looking.names]
  | cons a more ih =>
      rw [askAll, mem_names_bind, Argument.mem_names_asking, Argument.run_asking]
      constructor
      · rintro (⟨position, rfl⟩ | ⟨value, hvalue, hmore⟩)
        · exact ⟨[], position, more, rfl, by simp⟩
        · rcases mem_names_bind.mp hmore with hmore | ⟨_, _, hnone⟩
          · obtain ⟨before, position, behind, rfl, hbefore⟩ := ih.mp hmore
            exact ⟨a :: before, position, behind, rfl,
              List.forall_mem_cons.mpr ⟨⟨value, hvalue⟩, hbefore⟩⟩
          · cases hnone
      · rintro ⟨before, position, behind, heq, hbefore⟩
        cases before with
        | nil =>
            obtain ⟨rfl, -⟩ := List.cons.inj heq
            exact Or.inl ⟨position, rfl⟩
        | cons b before =>
            obtain ⟨rfl, rfl⟩ := List.cons.inj heq
            obtain ⟨⟨value, hvalue⟩, hbefore⟩ := List.forall_mem_cons.mp hbefore
            exact Or.inr ⟨value, hvalue, mem_names_bind.mpr
              (Or.inl (ih.mpr ⟨before, position, behind, rfl, hbefore⟩))⟩

theorem mem_names_nodesAsking_cons {node : Node} {more : List Node} {name : Text} :
    name ∈ (nodesAsking registry (node :: more)).names env.lookup ↔
      name ∈ (node.asking registry).names env.lookup ∨
        (∃ text, node.render env registry = .ok text) ∧
          name ∈ (nodesAsking registry more).names env.lookup := by
  have hpure : ∀ text rest : Text,
      name ∉ (pure (text ++ rest) : Looking Text).names env.lookup := fun _ _ => List.not_mem_nil
  rw [nodesAsking, mem_names_bind, Node.run_asking]
  simp only [mem_names_bind, hpure, and_false, exists_false, or_false, exists_and_right]

/-- A name in arms is that of the first condition, or is in its body, or
behind it. -/
theorem mem_names_armsAsking_cons {condition : Argument} {body : List Node}
    {more : List (Argument × List Node)} {name : Text} :
    name ∈ (armsAsking registry ((condition, body) :: more)).names env.lookup ↔
      (∃ position, condition = .variableName name position) ∨
        condition.Has env true ∧ name ∈ (nodesAsking registry body).names env.lookup ∨
        condition.Has env false ∧ name ∈ (armsAsking registry more).names env.lookup := by
  have hpure : ∀ text : Text,
      name ∉ (pure (some text) : Looking (Option Text)).names env.lookup :=
    fun _ => List.not_mem_nil
  rw [armsAsking, mem_names_bind, Argument.mem_names_asking, Argument.run_asking]
  refine or_congr_right ?_
  constructor
  · rintro ⟨value, hvalue, hname⟩
    cases htruth : value.isTruthy with
    | true =>
        rw [if_pos htruth, mem_names_bind] at hname
        exact Or.inl ⟨⟨value, hvalue, htruth⟩, by simpa only [hpure, and_false, exists_false,
          or_false] using hname⟩
    | false =>
        rw [if_neg (by simp [htruth])] at hname
        exact Or.inr ⟨⟨value, hvalue, htruth⟩, hname⟩
  · rintro (⟨⟨value, hvalue, htruth⟩, hname⟩ | ⟨⟨value, hvalue, htruth⟩, hname⟩)
    · refine ⟨value, hvalue, ?_⟩
      rw [if_pos htruth]
      exact mem_names_bind.mpr (Or.inl hname)
    · refine ⟨value, hvalue, ?_⟩
      rw [if_neg (by simp [htruth])]
      exact hname

theorem mem_names_armsAsking_append {before arms : List (Argument × List Node)} {name : Text}
    (untaken : ∀ arm ∈ before, arm.1.Has env false)
    (h : name ∈ (armsAsking registry arms).names env.lookup) :
    name ∈ (armsAsking registry (before ++ arms)).names env.lookup := by
  induction before with
  | nil => exact h
  | cons arm before ih =>
      obtain ⟨hfirst, hmore⟩ := List.forall_mem_cons.mp untaken
      exact mem_names_armsAsking_cons.mpr (Or.inr (Or.inr ⟨hfirst, ih hmore⟩))

theorem renderArms_eq_none_iff {arms : List (Argument × List Node)} :
    renderArms env registry arms = .ok none ↔ ∀ arm ∈ arms, arm.1.Has env false := by
  induction arms with
  | nil => simp [renderArms]
  | cons arm more ih =>
      obtain ⟨condition, body⟩ := arm
      rw [renderArms, Pass.bind_eq_ok_iff, List.forall_mem_cons, ← ih]
      constructor
      · rintro ⟨value, hvalue, h⟩
        cases htruth : value.isTruthy with
        | true =>
            rw [if_pos htruth] at h
            obtain ⟨text, -, h⟩ := Pass.bind_eq_ok_iff.mp h
            cases h
        | false =>
            rw [if_neg (by simp [htruth])] at h
            exact ⟨⟨value, hvalue, htruth⟩, h⟩
      · rintro ⟨⟨value, hvalue, htruth⟩, h⟩
        refine ⟨value, hvalue, ?_⟩
        rw [if_neg (by simp [htruth])]
        exact h

mutual

theorem Node.reached_of_mem (node : Node) {name : Text}
    (h : name ∈ (node.asking registry).names env.lookup) (more : List Node) :
    Reached env registry (node :: more) name :=
  match node with
  | .text _ => absurd h List.not_mem_nil
  | .placeholder path position => by
      rw [Node.asking, mem_names_bind] at h
      rcases h with h | ⟨_, _, hnone⟩
      · obtain rfl := mem_names_askName.mp h
        exact .placeholder
      · cases hnone
  | .conditional arms none => by
      rw [Node.asking, mem_names_bind] at h
      rcases h with h | ⟨_, _, hnone⟩
      · exact reached_of_mem_arms arms h (List.forall_mem_nil _) none more
      · cases hnone
  | .conditional arms (some body) => by
      rw [Node.asking, mem_names_bind, run_armsAsking] at h
      rcases h with h | ⟨taken, htaken, h⟩
      · exact reached_of_mem_arms arms h (List.forall_mem_nil _) (some body) more
      · cases taken with
        | some text => cases h
        | none => exact .otherwise (renderArms_eq_none_iff.mp htaken) (reached_of_mem body h)
  | .tag tag arguments => by
      rw [Node.asking, askTag] at h
      cases hfind : registry.find? tag with
      | none =>
          rw [hfind] at h
          cases h
      | some found =>
          rw [hfind] at h
          rcases mem_names_bind.mp h with h | ⟨_, _, hnone⟩
          · obtain ⟨before, position, behind, rfl, hbefore⟩ := mem_names_askAll.mp h
            exact .argument (by simp [hfind]) hbefore
          · cases hnone

theorem reached_of_mem_arms (arms : List (Argument × List Node)) {name : Text}
    (h : name ∈ (armsAsking registry arms).names env.lookup)
    {before : List (Argument × List Node)} (untaken : ∀ arm ∈ before, arm.1.Has env false)
    (otherwise : Option (List Node)) (more : List Node) :
    Reached env registry (.conditional (before ++ arms) otherwise :: more) name :=
  match arms with
  | [] => absurd h List.not_mem_nil
  | (condition, body) :: behind => by
      rcases mem_names_armsAsking_cons.mp h with ⟨position, rfl⟩ | ⟨htrue, h⟩ | ⟨hfalse, h⟩
      · exact .condition untaken
      · exact .arm untaken htrue (reached_of_mem body h)
      · have hmore : ∀ arm ∈ before ++ [(condition, body)], arm.1.Has env false := by
          intro arm harm
          rcases List.mem_append.mp harm with harm | harm
          · exact untaken arm harm
          · obtain rfl := List.mem_singleton.mp harm
            exact hfalse
        rw [List.append_cons]
        exact reached_of_mem_arms behind h hmore otherwise more

theorem reached_of_mem (nodes : List Node) {name : Text}
    (h : name ∈ (nodesAsking registry nodes).names env.lookup) :
    Reached env registry nodes name :=
  match nodes with
  | [] => absurd h List.not_mem_nil
  | node :: more => by
      rcases mem_names_nodesAsking_cons.mp h with h | ⟨⟨text, htext⟩, h⟩
      · exact node.reached_of_mem h more
      · exact .behind htext (reached_of_mem more h)

end

theorem mem_names_conditional {arms : List (Argument × List Node)} {name : Text}
    (h : name ∈ (armsAsking registry arms).names env.lookup) (otherwise : Option (List Node))
    (more : List Node) :
    name ∈ (nodesAsking registry (.conditional arms otherwise :: more)).names env.lookup := by
  refine mem_names_nodesAsking_cons.mpr (Or.inl ?_)
  cases otherwise <;>
    · rw [Node.asking]
      exact mem_names_bind.mpr (Or.inl h)

/-- The names that are looked up are those that the rendering comes to. -/
theorem mem_names_iff_reached {nodes : List Node} {name : Text} :
    name ∈ (nodesAsking registry nodes).names env.lookup ↔ Reached env registry nodes name := by
  refine ⟨reached_of_mem nodes, fun h => ?_⟩
  induction h with
  | behind rendered _ ih => exact mem_names_nodesAsking_cons.mpr (Or.inr ⟨⟨_, rendered⟩, ih⟩)
  | placeholder =>
      refine mem_names_nodesAsking_cons.mpr (Or.inl ?_)
      rw [Node.asking]
      exact mem_names_bind.mpr (Or.inl (mem_names_askName.mpr rfl))
  | @argument tag name before behind position more known found =>
      obtain ⟨found', hfind⟩ := Option.ne_none_iff_exists'.mp known
      refine mem_names_nodesAsking_cons.mpr (Or.inl ?_)
      rw [Node.asking, askTag, hfind]
      exact mem_names_bind.mpr
        (Or.inl (mem_names_askAll.mpr ⟨before, position, behind, rfl, found⟩))
  | condition untaken =>
      exact mem_names_conditional (mem_names_armsAsking_append untaken
        (mem_names_armsAsking_cons.mpr (Or.inl ⟨_, rfl⟩))) _ _
  | arm untaken taken _ ih =>
      exact mem_names_conditional (mem_names_armsAsking_append untaken
        (mem_names_armsAsking_cons.mpr (Or.inr (Or.inl ⟨taken, ih⟩)))) _ _
  | otherwise untaken _ ih =>
      refine mem_names_nodesAsking_cons.mpr (Or.inl ?_)
      rw [Node.asking, mem_names_bind, run_armsAsking]
      exact Or.inr ⟨none, renderArms_eq_none_iff.mpr untaken, ih⟩

end Template

/-! ## Keys that are added -/

theorem Members.find?_merge {key : Text} {base top : List (Text × Json)}
    (h : ∀ member ∈ top, member.1 ≠ key) : find? key (merge base top) = find? key base := by
  induction top generalizing base with
  | nil => rfl
  | cons member top ih =>
      obtain ⟨hfirst, hmore⟩ := List.forall_mem_cons.mp h
      have hstep : merge base (member :: top) = merge (insert member.1 member.2 base) top := rfl
      rw [hstep, ih hmore, find?_insert, if_neg hfirst]

namespace Environment

/-- The keys are new to an environment, and none of them can be taken for a
path into one of its objects. -/
def Adds (env top : Environment) : Prop :=
  ∀ member ∈ top.members, '.' ∉ member.1 ∧ env.find? member.1 = none

variable {env top : Environment}

theorem find?_merge (h : env.Adds top) {key : Text} {value : Json}
    (hvalue : env.find? key = some value) : (env.merge top).find? key = some value := by
  rw [← hvalue]
  refine Members.find?_merge fun member hmember heq => ?_
  have hnone := (h member hmember).2
  rw [heq, hvalue] at hnone
  cases hnone

/-- What a name stands for does not change. -/
theorem lookup_merge (h : env.Adds top) {name : Text} {value : Json}
    (hvalue : env.lookup name = some value) : (env.merge top).lookup name = some value := by
  rw [lookup] at hvalue ⊢
  cases hkey : env.find? name with
  | some found =>
      rw [hkey] at hvalue
      rwa [find?_merge h hkey]
  | none =>
      rw [hkey] at hvalue
      dsimp only at hvalue
      -- the name leads on from another key, and so has a dot in it
      have hdot : '.' ∈ name := by
        by_contra hdot
        rw [Text.split_of_notMem hdot] at hvalue
        simp only [hkey, Option.bind_none] at hvalue
        cases hvalue
      have hnew : (env.merge top).find? name = none := by
        rw [← hkey]
        refine Members.find?_merge fun member hmember heq => ?_
        exact (h member hmember).1 (heq ▸ hdot)
      rw [hnew]
      cases hsplit : name.split '.' with
      | nil => rw [hsplit] at hvalue; cases hvalue
      | cons first path =>
          rw [hsplit] at hvalue
          obtain ⟨outer, houter, hpath⟩ := Option.bind_eq_some_iff.mp hvalue
          dsimp only
          rw [find?_merge h houter]
          exact hpath

theorem insert_eq_merge (env : Environment) (key : Text) (value : Json) :
    env.insert key value = env.merge ⟨[(key, value)]⟩ := rfl

end Environment

namespace Template

/-! ## The result -/

/-- A rendering looks up the names it comes to and no others. Under an
environment that says the same of these it has the same outcome. If it
succeeds, they all have values, and it gives the same text with keys added
that were not there before and have no dots in them. -/
theorem render_lookups (t : Template) (registry : Registry) (env : Environment) :
    (t.asking registry).run env.lookup = t.render env registry ∧
    (∀ name, name ∈ (t.asking registry).names env.lookup ↔ Reached env registry t.nodes name) ∧
    (∀ other : Environment,
      (∀ name ∈ (t.asking registry).names env.lookup, other.lookup name = env.lookup name) →
        t.render other registry = t.render env registry ∧
        (t.asking registry).names other.lookup = (t.asking registry).names env.lookup) ∧
    ∀ text, t.render env registry = .ok text →
      (∀ name ∈ (t.asking registry).names env.lookup, env.lookup name ≠ none) ∧
      (∀ top, env.Adds top → t.render (env.merge top) registry = .ok text) ∧
      ∀ key value, '.' ∉ key → env.find? key = none →
        t.render (env.insert key value) registry = .ok text := by
  have hrun : ∀ env : Environment,
      (t.asking registry).run env.lookup = t.render env registry := fun env =>
    run_nodesAsking t.nodes
  have hagree : ∀ other : Environment,
      (∀ name ∈ (t.asking registry).names env.lookup, other.lookup name = env.lookup name) →
        t.render other registry = t.render env registry ∧
        (t.asking registry).names other.lookup = (t.asking registry).names env.lookup := by
    intro other h
    rw [← hrun, ← hrun]
    exact Looking.agree h
  refine ⟨hrun env, fun name => mem_names_iff_reached, hagree, fun text htext => ?_⟩
  have hfound : ∀ name ∈ (t.asking registry).names env.lookup, env.lookup name ≠ none :=
    (needy_nodesAsking t.nodes).found ((hrun env).trans htext)
  have hmerge : ∀ top, env.Adds top → t.render (env.merge top) registry = .ok text := by
    intro top hadds
    rw [(hagree (env.merge top) fun name hname => ?_).1, htext]
    obtain ⟨value, hvalue⟩ := Option.ne_none_iff_exists'.mp (hfound name hname)
    rw [hvalue, Environment.lookup_merge hadds hvalue]
  refine ⟨hfound, hmerge, fun key value hdot hnone => ?_⟩
  rw [Environment.insert_eq_merge]
  refine hmerge _ fun member hmember => ?_
  obtain rfl := List.mem_singleton.mp hmember
  exact ⟨hdot, hnone⟩

/-- Two arms, with a placeholder in each. -/
def twoArms : Text :=
  "\x7b\x7b#if o.k\x7d\x7d\x7b\x7ba\x7d\x7d".toList ++
    "\x7b\x7b#elif b\x7d\x7d\x7b\x7bc\x7d\x7d\x7b\x7b/if\x7d\x7d".toList

/-- An object that the name with a dot leads into. -/
def innerKey : Environment :=
  ⟨[(['a'], .string ['x']), (['o'], .object [(['k'], .bool true)])]⟩

/-- The same name as a key. -/
def dottedKey : Environment := ⟨[(['a'], .string ['x']), ("o.k".toList, .bool true)]⟩

def keysAdded : Environment := ⟨[(['b'], .bool true), (['k'], .null)]⟩

theorem render_lookups_twoArms :
    ∃ t, compile .standard twoArms = .ok t ∧
      (t.asking .standard).names innerKey.lookup = ["o.k".toList, ['a']] ∧
      ¬ Reached innerKey .standard t.nodes ['b'] ∧ ¬ Reached innerKey .standard t.nodes ['c'] ∧
      t.render dottedKey .standard = .ok ['x'] ∧
      t.render (innerKey.merge keysAdded) .standard = .ok ['x'] := by
  have hlooked : (compile .standard twoArms).toOption.map
      (fun t => (t.asking .standard).names innerKey.lookup) = some ["o.k".toList, ['a']] := by
    decide +kernel
  have hexpand : expand .standard innerKey twoArms = .ok ['x'] := by decide +kernel
  obtain ⟨t, ht, hnames⟩ := Option.map_eq_some_iff.mp hlooked
  have ht := Pass.eq_ok_of_toOption ht
  rw [expand, ht] at hexpand
  obtain ⟨-, hreached, hagree, hsuccess⟩ := render_lookups t .standard innerKey
  have hsame : ∀ name ∈ (t.asking .standard).names innerKey.lookup,
      dottedKey.lookup name = innerKey.lookup name := by
    intro name hname
    rw [hnames, List.mem_cons, List.mem_singleton] at hname
    rcases hname with rfl | rfl <;> rfl
  have hadds : innerKey.Adds keysAdded := by
    intro member hmember
    simp only [keysAdded, List.mem_cons, List.not_mem_nil, or_false] at hmember
    rcases hmember with rfl | rfl <;> exact ⟨by decide, rfl⟩
  refine ⟨t, ht, hnames, ?_, ?_, (hagree dottedKey hsame).1.trans hexpand,
    (hsuccess ['x'] hexpand).2.1 keysAdded hadds⟩
  · rw [← hreached, hnames]
    decide
  · rw [← hreached, hnames]
    decide

/-- A key with a dot in it may capture a name that led elsewhere. -/
example : expand .standard (innerKey.insert "o.k".toList .null) twoArms =
    .error (.unknownVariable ['b'] ⟨1, 25⟩) := by
  decide +kernel

end Template

end Tsql
