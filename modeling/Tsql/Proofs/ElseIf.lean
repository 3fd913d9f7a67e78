import Tsql.Proofs.TemplateJoining
import Tsql.Proofs.TemplateRendering

/-!
# Else-if as a conditional in the last part

A conditional with several arms says the same as one with a single arm whose
last part is a conditional with the others:

    #if A x #elif B y #else z /if
    #if A x #else #if B y #else z /if /if

The two are read in different ways. The arms of the first are read in a row
(`ReadsBranches.elif`), those of the second one inside of the other
(`ReadsBlock.otherwise`). They are rendered in different ways too: the first
by the first true condition in a list, the second by a choice between two
bodies (`render_conditional_cons`).

Texts stand elsewhere in the two forms, and some have a text behind them
that the others do not have. So what a text is read as is said for any
place and for anything behind it (`ReadsBlock`, `ReadsBranches`), with
places left out of the result (`unplaced`).
-/

namespace Tsql

namespace Template

variable {registry : Registry} {env : Environment} {p : Position}

/-! ## Conditions, bodies and arms -/

/-- A text that is one argument, without a closing brace. -/
structure Condition where
  text : Text
  argument : Argument
  single : Arguments .start text [argument]
  closed : '\x7d' ∉ text

namespace Condition

/-- A name or a number. -/
def ofWord (c : Char) (cs : Text) (solid : (c :: cs).all (!isBlank ·) = true)
    (unquoted : c ≠ '\'' ∧ c ≠ '"') (closed : '\x7d' ∉ c :: cs) : Condition where
  text := c :: cs
  argument := wordArgument (c :: cs) .start
  single := by
    have hrun : Text.Run (!isBlank ·) (c :: cs) [] := ⟨List.all_eq_true.mp solid, by simp⟩
    have hquote : c = '\'' ∨ c = '"' → c ∉ cs ++ [] := fun h =>
      absurd h (not_or.mpr unquoted)
    simpa only [List.append_nil] using Arguments.word hrun hquote (.done _)
  closed := closed

/-- A quoted text. -/
def ofQuoted (quote : Char) (inner : Text) (opens : quote = '\'' ∨ quote = '"')
    (closes : quote ∉ inner) (closed : '\x7d' ∉ inner) : Condition where
  text := quote :: inner ++ [quote]
  argument := .literal (.string inner)
  single := .quoted opens closes (.done _)
  closed := by
    have hquote : '\x7d' ≠ quote := by rcases opens with rfl | rfl <;> decide
    simp [hquote, closed]

end Condition

/-- A text that is a template by itself and does not end with an opening
brace. -/
structure Body (registry : Registry) where
  text : Text
  template : Template
  reads : compile registry text = .ok template
  ends : text.getLast? ≠ some '\x7b'

/-- A condition and what it stands before. -/
structure Arm (registry : Registry) where
  condition : Condition
  body : Body registry

/-- The names of a tag that goes on with another arm. -/
inductive ElseIfName where
  | elif
  | elseif
  deriving DecidableEq, Repr

def ElseIfName.text : ElseIfName → Text
  | elif => "elif".toList
  | elseif => "elseif".toList

/-! ## The two forms -/

def tagSource (sign : Sign) (name rest : Text) : Text :=
  openMark ++ (sign.text ++ name ++ rest) ++ closeMark

/-- A tag with a condition. -/
def Condition.source (name : Text) (c : Condition) : Text := tagSource .opening name (' ' :: c.text)

def elseSource : Text := tagSource .opening "else".toList []

def endSource : Text := tagSource .closing "if".toList []

/-- The end of a conditional, with its last part if it has one. -/
def lastSource : Option (Body registry) → Text
  | none => endSource
  | some body => elseSource ++ (body.text ++ endSource)

/-- The arms behind the first, and the end. -/
def moreSource : List (ElseIfName × Arm registry) → Option (Body registry) → Text
  | [], last => lastSource last
  | (name, arm) :: more, last =>
    arm.condition.source name.text ++ (arm.body.text ++ moreSource more last)

/-- One conditional, with all arms in a row. -/
def chain (first : Arm registry) (more : List (ElseIfName × Arm registry))
    (last : Option (Body registry)) : Text :=
  first.condition.source "if".toList ++ (first.body.text ++ moreSource more last)

/-- As many conditionals as there are arms, each in the last part of the one
before. -/
def nest : Arm registry → List (Arm registry) → Option (Body registry) → Text
  | arm, [], last => arm.condition.source "if".toList ++ (arm.body.text ++ lastSource last)
  | arm, next :: more, last =>
    arm.condition.source "if".toList ++
      (arm.body.text ++ (elseSource ++ (nest next more last ++ endSource)))

/-! ## What is cut in one way, whatever follows -/

/-- A text at a place that is cut into these segments whatever is behind
it. -/
def CutApart (p : Position) (t : Text) (xs : List Segment) : Prop :=
  ∀ rest ys, CutInto (p.after t) rest ys → CutInto p (t ++ rest) (joined xs ys)

theorem CutInto.apart {t : Text} {xs : List Segment} (h : CutInto p t xs)
    (hend : t.getLast? ≠ some '\x7b') : CutApart p t xs :=
  fun _ _ hrest => h.join hend hrest

namespace CutApart

variable {t u : Text} {xs ys : List Segment} {w : WrittenTag}

theorem cutInto (h : CutApart p t xs) : CutInto p t xs := by
  have hnone : CutInto (p.after t) [] [] := .text (by decide) .nothing
  simpa only [joined_nil, List.append_nil] using h [] [] hnone

theorem behindTag (h : CutApart p t [.tag w]) (hu : CutApart (p.after t) u ys) :
    CutApart p (t ++ u) (.tag w :: ys) := by
  intro rest zs hrest
  rw [Position.after_append] at hrest
  rw [List.append_assoc]
  exact h _ _ (hu rest zs hrest)

theorem beforeTag (h : CutApart p t xs) (hu : CutApart (p.after t) u (.tag w :: ys)) :
    CutApart p (t ++ u) (xs ++ .tag w :: ys) := by
  intro rest zs hrest
  rw [Position.after_append] at hrest
  have hall := h _ _ (hu rest zs hrest)
  -- what is behind begins with a tag, so that no text is joined with it
  rw [joined, joined_tag] at hall
  rw [List.append_assoc, joined_append_tag]
  exact hall

end CutApart

theorem not_closeMark_of_notMem {t : Text} (h : '\x7d' ∉ t) :
    ¬ closeMark <:+: t ++ closeMark.dropLast := by
  intro hoccurs
  have hcount := hoccurs.sublist.count_le '\x7d'
  rw [List.count_append, List.count_eq_zero.mpr h] at hcount
  exact absurd hcount (by decide)

/-- A tag is cut at its own end, if it holds no closing brace. -/
theorem cutApart_tagSource (sign : Sign) {name rest : Text} {arguments : List Argument}
    (hname : IsName name) (hends : ∀ c ∈ rest.head?, isNamePart c = false)
    (hclosed : '\x7d' ∉ rest)
    (hreads : Arguments (p.after (openMark ++ (sign.text ++ name))) rest arguments) :
    CutApart p (tagSource sign name rest) [.tag ⟨sign, name, arguments, p⟩] := by
  intro more ys hmore
  have hcontent : TagContent (sign.text ++ name ++ rest) ⟨sign, name, arguments, p⟩ := by
    have hnone : ∀ c ∈ ([] : Text), isBlank c = true := by simp
    have hparts : TagContent ([] ++ sign.text ++ [] ++ name ++ rest) ⟨sign, name, arguments, p⟩ :=
      .mk hnone hnone hname hends (by simpa using hreads)
    simpa only [List.nil_append, List.append_nil] using hparts
  have hbraces : '\x7d' ∉ sign.text ++ name ++ rest := by
    have hsign : '\x7d' ∉ sign.text := by cases sign <;> decide
    have hpart : '\x7d' ∉ name := fun hmem => absurd (hname.parts _ hmem) (by decide)
    simp only [List.mem_append, not_or]
    exact ⟨⟨hsign, hpart⟩, hclosed⟩
  have hopens : ¬ openMark <:+: [] ++ openMark.dropLast := by decide
  exact .tag hopens .nothing (not_closeMark_of_notMem hbraces) rfl hcontent hmore

theorem isName_of_check {name : Text}
    (h : (name.head?.any isNameStart && name.all isNamePart) = true) : IsName name := by
  rw [Bool.and_eq_true] at h
  exact ⟨h.1, List.all_eq_true.mp h.2⟩

theorem Branches.exists_first (d : Branches registry) : ∃ w more, d.segments = .tag w :: more := by
  cases d <;> exact ⟨_, _, rfl⟩

/-! ## What a text is read as, in any place -/

/-- All places as one, where it does not matter which. -/
def unplaced : Position → Position := fun _ => .start

theorem nodesMoved_unplaced (f : Position → Position) (nodes : List Node) :
    nodesMoved unplaced (nodesMoved f nodes) = nodesMoved unplaced nodes :=
  nodesMoved_nodesMoved unplaced nodes

def Condition.value (c : Condition) : Argument := c.argument.moved unplaced

def Body.nodes (b : Body registry) : List Node := nodesMoved unplaced b.template.nodes

def Arm.value (arm : Arm registry) : Argument × List Node := (arm.condition.value, arm.body.nodes)

/-- Wherever the text stands and whatever is behind it, it is a block of
these nodes. -/
def ReadsBlock (registry : Registry) (t : Text) (nodes : List Node) : Prop :=
  ∀ p, ∃ d : Block registry, CutApart p t d.segments ∧ nodesMoved unplaced d.nodes = nodes

/-- Wherever the text stands and whatever is behind it, it is the rest of a
conditional, with these arms and this last part. -/
def ReadsBranches (registry : Registry) (t : Text) (arms : List (Argument × List Node))
    (last : Option (List Node)) : Prop :=
  ∀ p, ∃ d : Branches registry, CutApart p t d.segments ∧ armsMoved unplaced d.arms = arms ∧
    d.last.map (nodesMoved unplaced) = last

theorem Body.readsBlock (b : Body registry) : ReadsBlock registry b.text b.nodes := by
  intro p
  obtain ⟨d⟩ := exists_derivation b.reads
  have htemplate : ⟨d.block.nodes⟩ = b.template :=
    Except.ok.inj (d.compile_eq.symm.trans b.reads)
  refine ⟨d.block.moved p.shifted, ?_, ?_⟩
  · rw [Block.segments_moved]
    exact (d.cut.moved (Position.carries_shifted p)).apart b.ends
  · rw [Block.nodes_moved, nodesMoved_unplaced, Body.nodes, ← htemplate]

/-- A tag with a condition, which stands in another place than by itself. -/
theorem Condition.exists_tag (c : Condition) {name : Text} (hname : IsName name) (p : Position) :
    ∃ w a, (w.sign = .opening ∧ w.name = name ∧ w.arguments = [a]) ∧ a.moved unplaced = c.value ∧
      CutApart p (c.source name) [.tag w] := by
  have hends : ∀ d ∈ (' ' :: c.text).head?, isNamePart d = false := by
    rintro d ⟨⟩
    decide
  have hclosed : '\x7d' ∉ ' ' :: c.text := by simp [c.closed]
  exact ⟨⟨.opening, name, _, p⟩, _, ⟨rfl, rfl, rfl⟩, Argument.moved_moved unplaced _,
    cutApart_tagSource .opening hname hends hclosed
      (.blank (by decide) (c.single.moved (Position.carries_shifted _)))⟩

theorem exists_elseTag (p : Position) : ∃ w, w.IsElse ∧ CutApart p elseSource [.tag w] :=
  ⟨⟨.opening, "else".toList, [], p⟩, ⟨rfl, rfl, rfl⟩,
    cutApart_tagSource .opening (isName_of_check (by decide)) (by simp) (by simp) (.done _)⟩

theorem exists_endTag (p : Position) : ∃ w, w.IsClose ∧ CutApart p endSource [.tag w] :=
  ⟨⟨.closing, "if".toList, [], p⟩, ⟨rfl, rfl⟩,
    cutApart_tagSource .closing (isName_of_check (by decide)) (by simp) (by simp) (.done _)⟩

theorem readsBranches_endSource : ReadsBranches registry endSource [] none := by
  intro p
  obtain ⟨w, hw, hend⟩ := exists_endTag p
  refine ⟨.close w hw, hend, ?_, rfl⟩
  rw [Branches.arms, armsMoved]

theorem ReadsBlock.otherwise {t : Text} {nodes : List Node} (h : ReadsBlock registry t nodes) :
    ReadsBranches registry (elseSource ++ (t ++ endSource)) [] (some nodes) := by
  intro p
  obtain ⟨d, hcut, rfl⟩ := h (p.after elseSource)
  obtain ⟨w, hw, helse⟩ := exists_elseTag p
  obtain ⟨last, hlast, hend⟩ := exists_endTag ((p.after elseSource).after t)
  refine ⟨.otherwise w hw d last hlast, helse.behindTag (hcut.beforeTag hend), ?_, rfl⟩
  rw [Branches.arms, armsMoved]

/-- A tag with a condition, a block and the rest of a conditional make up an
arm and what is behind it. -/
theorem ReadsBranches.exists_arm {t u : Text} {nodes : List Node}
    {arms : List (Argument × List Node)} {last : Option (List Node)}
    (h : ReadsBranches registry u arms last) (ht : ReadsBlock registry t nodes) (c : Condition)
    {name : Text} (hname : IsName name) (p : Position) :
    ∃ w a, ∃ (d : Block registry) (branches : Branches registry),
      (w.sign = .opening ∧ w.name = name ∧ w.arguments = [a]) ∧
      CutApart p (c.source name ++ (t ++ u)) (.tag w :: (d.segments ++ branches.segments)) ∧
      armsMoved unplaced ((a, d.nodes) :: branches.arms) = (c.value, nodes) :: arms ∧
      branches.last.map (nodesMoved unplaced) = last := by
  obtain ⟨w, a, hw, ha, htag⟩ := c.exists_tag hname p
  obtain ⟨d, hcut, rfl⟩ := ht (p.after (c.source name))
  obtain ⟨branches, hbranches, rfl, rfl⟩ := h ((p.after (c.source name)).after t)
  obtain ⟨first, more, hfirst⟩ := branches.exists_first
  refine ⟨w, a, d, branches, hw, ?_, by rw [armsMoved, ha], rfl⟩
  rw [hfirst] at hbranches ⊢
  exact htag.behindTag (hcut.beforeTag hbranches)

theorem ReadsBranches.elif {t u : Text} {nodes : List Node} {arms : List (Argument × List Node)}
    {last : Option (List Node)} (h : ReadsBranches registry u arms last)
    (ht : ReadsBlock registry t nodes) (name : ElseIfName) (c : Condition) :
    ReadsBranches registry (c.source name.text ++ (t ++ u)) ((c.value, nodes) :: arms) last := by
  intro p
  have hname : IsName name.text := isName_of_check (by cases name <;> decide)
  obtain ⟨w, a, d, branches, ⟨hsign, hw, harguments⟩, hcut, harms, hlast⟩ :=
    h.exists_arm ht c hname p
  have helif : w.IsElif a := by
    refine ⟨hsign, ?_, harguments⟩
    cases name
    · exact .inl hw
    · exact .inr hw
  refine ⟨.elif w a helif d branches, hcut, ?_, hlast⟩
  rw [Branches.arms, harms]

theorem ReadsBranches.conditional {t u : Text} {nodes : List Node}
    {arms : List (Argument × List Node)} {last : Option (List Node)}
    (h : ReadsBranches registry u arms last) (ht : ReadsBlock registry t nodes) (c : Condition) :
    ReadsBlock registry (c.source "if".toList ++ (t ++ u))
      [.conditional ((c.value, nodes) :: arms) last] := by
  intro p
  have hname : IsName "if".toList := isName_of_check (by decide)
  obtain ⟨w, a, d, branches, hw, hcut, harms, hlast⟩ := h.exists_arm ht c hname p
  have hif : w.IsIf a := hw
  refine ⟨.conditional w a hif d branches .done, ?_, ?_⟩
  · rw [Block.segments, Block.segments, List.append_nil]
    exact hcut
  · rw [Block.nodes, Block.nodes, nodesMoved, nodesMoved, Node.moved_conditional, harms, hlast]

/-- By itself such a text is a template. -/
theorem ReadsBlock.exists_compile {t : Text} {nodes : List Node}
    (h : ReadsBlock registry t nodes) :
    ∃ template, compile registry t = .ok template ∧
      nodesMoved unplaced template.nodes = nodes := by
  obtain ⟨d, hcut, hnodes⟩ := h .start
  exact ⟨_, Derivation.compile_eq ⟨d, hcut.cutInto⟩, hnodes⟩

/-! ## What the two forms are read as -/

theorem readsBranches_lastSource (last : Option (Body registry)) :
    ReadsBranches registry (lastSource last) [] (last.map Body.nodes) := by
  cases last with
  | none => exact readsBranches_endSource
  | some body => exact body.readsBlock.otherwise

theorem readsBranches_moreSource (more : List (ElseIfName × Arm registry))
    (last : Option (Body registry)) :
    ReadsBranches registry (moreSource more last) (more.map (·.2.value))
      (last.map Body.nodes) := by
  induction more with
  | nil => exact readsBranches_lastSource last
  | cons next more ih => exact ih.elif next.2.body.readsBlock next.1 next.2.condition

theorem readsBlock_chain (first : Arm registry) (more : List (ElseIfName × Arm registry))
    (last : Option (Body registry)) :
    ReadsBlock registry (chain first more last)
      [.conditional (first.value :: more.map (·.2.value)) (last.map Body.nodes)] :=
  (readsBranches_moreSource more last).conditional first.body.readsBlock first.condition

/-- A conditional for each arm, in the last part of the one before. -/
def nestNode : Argument × List Node → List (Argument × List Node) → Option (List Node) → Node
  | arm, [], last => .conditional [arm] last
  | arm, next :: more, last => .conditional [arm] (some [nestNode next more last])

theorem readsBlock_nest (first : Arm registry) (more : List (Arm registry))
    (last : Option (Body registry)) :
    ReadsBlock registry (nest first more last)
      [nestNode first.value (more.map Arm.value) (last.map Body.nodes)] := by
  induction more generalizing first with
  | nil => exact (readsBranches_lastSource last).conditional first.body.readsBlock first.condition
  | cons next more ih =>
      -- the conditionals inside are a last part like any other
      exact (ih next).otherwise.conditional first.body.readsBlock first.condition

/-! ## Rendering -/

theorem render_conditional (arms : List (Argument × List Node)) (last : Option (List Node)) :
    (Node.conditional arms last).render env registry =
      renderArms env registry arms >>= fun taken =>
        match taken, last with
        | some text, _ => .ok text
        | none, some body => renderNodes env registry body
        | none, none => .ok [] := by
  cases last with
  | none =>
      rw [Node.render]
      congr 1
      funext taken
      cases taken <;> rfl
  | some body =>
      rw [Node.render]
      congr 1
      funext taken
      cases taken <;> rfl

/-- The first arm, or else the conditional without it. -/
theorem render_conditional_cons (condition : Argument) (body : List Node)
    (more : List (Argument × List Node)) (last : Option (List Node)) :
    (Node.conditional ((condition, body) :: more) last).render env registry =
      condition.resolve env >>= fun value =>
        if value.isTruthy then renderNodes env registry body
        else (Node.conditional more last).render env registry := by
  rw [render_conditional, render_conditional, renderArms]
  cases condition.resolve env with
  | error e => rfl
  | ok value =>
      by_cases htrue : value.isTruthy
      · simp only [bind, Except.bind, if_pos htrue]
        cases renderNodes env registry body <;> rfl
      · simp only [bind, Except.bind, if_neg htrue]

/-- A conditional without arms is its last part. -/
theorem render_conditional_nil (body : List Node) :
    (Node.conditional [] (some body)).render env registry = renderNodes env registry body := rfl

theorem renderNodes_singleton (node : Node) :
    renderNodes env registry [node] = node.render env registry := by
  rw [renderNodes, renderNodes]
  cases node.render env registry with
  | error e => rfl
  | ok text => exact congrArg Except.ok (List.append_nil text)

theorem render_nestNode (arm : Argument × List Node) (more : List (Argument × List Node))
    (last : Option (List Node)) :
    (nestNode arm more last).render env registry =
      (Node.conditional (arm :: more) last).render env registry := by
  induction more generalizing arm with
  | nil => rfl
  | cons next more ih =>
      obtain ⟨condition, body⟩ := arm
      rw [nestNode, render_conditional_cons, render_conditional_nil, renderNodes_singleton, ih]
      exact (render_conditional_cons condition body (next :: more) last).symm

/-- Texts that are read as nodes which are rendered alike have the same
outcome, places left out. -/
theorem ReadsBlock.expand_agrees {t t' : Text} {nodes nodes' : List Node}
    (h : ReadsBlock registry t nodes) (h' : ReadsBlock registry t' nodes')
    (hrender : renderNodes env registry nodes = renderNodes env registry nodes') :
    (∃ text, expand registry env t = .ok text ∧ expand registry env t' = .ok text) ∨
      ∃ name place place', env.lookup name = none ∧
        expand registry env t = .error (.unknownVariable name place) ∧
        expand registry env t' = .error (.unknownVariable name place') := by
  obtain ⟨template, hread, rfl⟩ := h.exists_compile
  obtain ⟨template', hread', rfl⟩ := h'.exists_compile
  have houtcome : ∀ {source : Text} {template : Template},
      compile registry source = .ok template →
      OnlyLacks env template.uses (expand registry env source) := by
    intro source template hcompile
    rw [expand_of_compile hcompile]
    exact onlyLacks_renderNodes _ (knows_of_compile hcompile)
  have hlacks := houtcome hread
  have hlacks' := houtcome hread'
  -- the outcomes are the same but for places
  have hsame : (expand registry env t).mapError (Error.moved unplaced) =
      (expand registry env t').mapError (Error.moved unplaced) := by
    rw [expand_of_compile hread, expand_of_compile hread', render, render, ← renderNodes_moved,
      ← renderNodes_moved, hrender]
  generalize expand registry env t = outcome at hsame hlacks ⊢
  generalize expand registry env t' = outcome' at hsame hlacks' ⊢
  cases hlacks with
  | ok text =>
      cases hlacks' with
      | ok text' =>
          obtain rfl := Except.ok.inj hsame
          exact .inl ⟨_, rfl, rfl⟩
      | lacks => cases hsame
  | lacks _ unknown =>
      cases hlacks' with
      | ok text' => cases hsame
      | lacks =>
          cases hsame
          exact .inr ⟨_, _, _, unknown, rfl, rfl⟩

/-- A conditional with any number of arms, with a last part or without, gives
what the conditionals in one another give, or they both fail for the same
name, which is not known. -/
theorem expand_chain_nest (first : Arm registry) (more : List (ElseIfName × Arm registry))
    (last : Option (Body registry)) (env : Environment) :
    (∃ text, expand registry env (chain first more last) = .ok text ∧
      expand registry env (nest first (more.map Prod.snd) last) = .ok text) ∨
    ∃ name place place', env.lookup name = none ∧
      expand registry env (chain first more last) = .error (.unknownVariable name place) ∧
      expand registry env (nest first (more.map Prod.snd) last) =
        .error (.unknownVariable name place') := by
  refine (readsBlock_chain first more last).expand_agrees
    (readsBlock_nest first (more.map Prod.snd) last) ?_
  rw [renderNodes_singleton, renderNodes_singleton, render_nestNode, List.map_map]
  rfl

/-- A text that is read with the registry. -/
def Body.ofText (registry : Registry) (text : Text)
    (isTemplate : (compile registry text).toOption.isSome = true)
    (ends : text.getLast? ≠ some '\x7b') : Body registry where
  text := text
  template := (compile registry text).toOption.get isTemplate
  reads := Pass.eq_ok_of_toOption (Option.some_get isTemplate).symm
  ends := ends

/-- A quoted text with nothing in it, which is not true. -/
def quotedArm : Arm .standard where
  condition := .ofQuoted '\'' [] (.inl rfl) (by decide) (by decide)
  body := .ofText .standard ['x'] (by decide +kernel) (by decide)

/-- A number that is not true. -/
def numberArm : Arm .standard where
  condition := .ofWord '0' [] (by decide) (by decide) (by decide)
  body := .ofText .standard ['y'] (by decide +kernel) (by decide)

/-- A name, before a conditional. -/
def namedArm : Arm .standard where
  condition := .ofWord 'A' [] (by decide) (by decide) (by decide)
  body := .ofText .standard "\x7b\x7b#if B\x7d\x7db\x7b\x7b/if\x7d\x7d".toList
    (by decide +kernel) (by decide)

def lastBody : Body .standard := .ofText .standard ['z'] (by decide +kernel) (by decide)

def laterArms : List (ElseIfName × Arm .standard) := [(.elif, numberArm), (.elseif, namedArm)]

theorem expand_chain_nest_threeArms :
    chain quotedArm laterArms (some lastBody) =
      ("\x7b\x7b#if ''\x7d\x7dx\x7b\x7b#elif 0\x7d\x7dy".toList ++
        "\x7b\x7b#elseif A\x7d\x7d\x7b\x7b#if B\x7d\x7db\x7b\x7b/if\x7d\x7d".toList ++
        "\x7b\x7b#else\x7d\x7dz\x7b\x7b/if\x7d\x7d".toList) ∧
    nest quotedArm [numberArm, namedArm] (some lastBody) =
      ("\x7b\x7b#if ''\x7d\x7dx\x7b\x7b#else\x7d\x7d\x7b\x7b#if 0\x7d\x7dy".toList ++
        "\x7b\x7b#else\x7d\x7d\x7b\x7b#if A\x7d\x7d\x7b\x7b#if B\x7d\x7db".toList ++
        "\x7b\x7b/if\x7d\x7d\x7b\x7b#else\x7d\x7dz\x7b\x7b/if\x7d\x7d".toList ++
        "\x7b\x7b/if\x7d\x7d\x7b\x7b/if\x7d\x7d".toList) ∧
    expand .standard truthsABC (nest quotedArm [numberArm, namedArm] (some lastBody)) =
      .ok ['b'] ∧
    ∃ place, expand .standard truthA (nest quotedArm [numberArm, namedArm] (some lastBody)) =
      .error (.unknownVariable ['B'] place) := by
  have hfull : expand .standard truthsABC (chain quotedArm laterArms (some lastBody)) =
      .ok ['b'] := by
    decide +kernel
  have hlacks : expand .standard truthA (chain quotedArm laterArms (some lastBody)) =
      .error (.unknownVariable ['B'] ⟨1, 43⟩) := by
    decide +kernel
  refine ⟨by decide, by decide, ?_, ?_⟩
  · rcases expand_chain_nest quotedArm laterArms (some lastBody) truthsABC with
      ⟨text, hchain, hnest⟩ | ⟨name, place, place', -, hchain, -⟩
    · rw [hfull] at hchain
      cases hchain
      exact hnest
    · rw [hfull] at hchain
      cases hchain
  · rcases expand_chain_nest quotedArm laterArms (some lastBody) truthA with
      ⟨text, hchain, -⟩ | ⟨name, place, place', -, hchain, hnest⟩
    · rw [hlacks] at hchain
      cases hchain
    · rw [hlacks] at hchain
      cases hchain
      exact ⟨_, hnest⟩

end Template

end Tsql
