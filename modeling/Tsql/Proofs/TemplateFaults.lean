import Tsql.Proofs.OpenBlocks
import Tsql.Proofs.SourceMap
import Tsql.Proofs.TemplateRendering

/-!
# Where the fault of a template is

An error of a template names a place. Places are counted on while the
source is cut, through tags and into their arguments, and are carried on
in nodes and frames to errors that come up much later. Here each place is
found again as what stands in front of it: `Position.behind front`, where
the source is `front` and then the very thing the error is about
(`Cause`).
-/

namespace Tsql

namespace Template

variable {registry : Registry} {env : Environment} {source : Text}

/-! ## Tags in a source -/

/-- A text behind which a tag opens, and its segments. -/
inductive UpTo : Position → Text → List Segment → Prop where
  | text {p : Position} {before : Text} {piece : List Segment}
      (opens : ¬ openMark <:+: before ++ openMark.dropLast) (isPiece : TextPiece before piece) :
      UpTo p before piece
  | tag {p : Position} {before content front : Text} {piece more : List Segment} {w : WrittenTag}
      (opens : ¬ openMark <:+: before ++ openMark.dropLast) (isPiece : TextPiece before piece)
      (closes : ¬ closeMark <:+: content ++ closeMark.dropLast)
      (position : w.position = p.after before) (reads : TagContent content w)
      (goesOn : UpTo (p.after (before ++ openMark ++ content ++ closeMark)) front more) :
      UpTo p (before ++ openMark ++ content ++ closeMark ++ front) (piece ++ .tag w :: more)

/-- A tag of a source, with what stands before and behind it. -/
structure TagIn (source : Text) where
  front : Text
  content : Text
  rest : Text
  before : List Segment
  written : WrittenTag
  behind : List Segment
  source_eq : source = front ++ openMark ++ content ++ closeMark ++ rest
  upTo : UpTo .start front before
  closes : ¬ closeMark <:+: content ++ closeMark.dropLast
  position : written.position = .behind front
  reads : TagContent content written
  goesOn : CutInto (.behind (front ++ openMark ++ content ++ closeMark)) rest behind

/-- Text comes before the first tag. -/
theorem TextPiece.exists_of_append {text : Text} {w w' : WrittenTag}
    {piece pre post more : List Segment} (hpiece : TextPiece text piece)
    (h : piece ++ .tag w' :: more = pre ++ .tag w :: post) :
    ∃ pre', pre = piece ++ pre' ∧ Segment.tag w' :: more = pre' ++ .tag w :: post := by
  cases hpiece with
  | nothing => exact ⟨pre, rfl, h⟩
  | whole nonempty =>
      cases pre with
      | nil => cases h
      | cons s pre' =>
          obtain ⟨rfl, htail⟩ := List.cons.inj h
          exact ⟨pre', rfl, htail⟩

/-- A tag among the segments stands in the source, behind what the
segments before it are cut from. -/
theorem CutInto.at_tag {p : Position} {source : Text} {segments : List Segment}
    (h : CutInto p source segments) {pre post : List Segment} {w : WrittenTag}
    (hsplit : segments = pre ++ .tag w :: post) :
    ∃ front content rest, source = front ++ openMark ++ content ++ closeMark ++ rest ∧
      UpTo p front pre ∧ (¬ closeMark <:+: content ++ closeMark.dropLast) ∧
      w.position = p.after front ∧ TagContent content w ∧
      CutInto (p.after (front ++ openMark ++ content ++ closeMark)) rest post := by
  induction h generalizing pre with
  | text plain isPiece =>
      exfalso
      have hmem : Segment.tag w ∈ pre ++ .tag w :: post := by simp
      rw [← hsplit] at hmem
      cases isPiece with
      | nothing => cases hmem
      | whole nonempty => cases List.mem_singleton.mp hmem
  | @tag p before content rest piece more w' opens isPiece closes position reads goesOn ih =>
      obtain ⟨pre', rfl, htail⟩ := isPiece.exists_of_append hsplit
      cases pre' with
      | nil =>
          cases htail
          rw [List.append_nil]
          exact ⟨before, content, rest, rfl, .text opens isPiece, closes, position, reads, goesOn⟩
      | cons s pre' =>
          obtain ⟨rfl, hmore⟩ := List.cons.inj htail
          obtain ⟨front, content', rest', rfl, hupTo, hcloses, hposition, hreads, hrest⟩ := ih hmore
          refine ⟨before ++ openMark ++ content ++ closeMark ++ front, content', rest', ?_,
            .tag opens isPiece closes position reads hupTo, hcloses, ?_, hreads, ?_⟩
          · simp only [List.append_assoc]
          · rw [hposition, ← Position.after_append]
          · simpa only [← Position.after_append, List.append_assoc] using hrest

theorem exists_tagIn {segments pre post : List Segment} {w : WrittenTag}
    (h : CutInto .start source segments) (hsplit : segments = pre ++ .tag w :: post) :
    ∃ t : TagIn source, t.before = pre ∧ t.written = w ∧ t.behind = post := by
  obtain ⟨front, content, rest, hsource, hupTo, hcloses, hposition, hreads, hrest⟩ :=
    h.at_tag hsplit
  rw [Position.start_after] at hposition hrest
  exact ⟨⟨front, content, rest, pre, w, post, hsource, hupTo, hcloses, hposition, hreads, hrest⟩,
    rfl, rfl, rfl⟩

/-! ## Where cutting fails -/

theorem read_eq_error {p : Position} {content : Text} {e : Error}
    (h : WrittenTag.read p content = .error e) : e = .unknownTag content.trim p := by
  simp only [WrittenTag.read] at h
  split at h
  · cases h
  · cases h
    rfl

/-- Why a text that begins at a place cannot be cut. -/
inductive CutFails (p : Position) (source : Text) : Error → Prop where
  | unterminated {front rest : Text} {before : List Segment}
      (source_eq : source = front ++ openMark ++ rest) (upTo : UpTo p front before)
      (unclosed : ¬ closeMark <:+: rest) : CutFails p source (.unterminatedTag (p.after front))
  | unreadable {front content rest : Text} {before : List Segment}
      (source_eq : source = front ++ openMark ++ content ++ closeMark ++ rest)
      (upTo : UpTo p front before) (closes : ¬ closeMark <:+: content ++ closeMark.dropLast)
      (noTag : ∀ w, w.position = p.after front → ¬ TagContent content w) :
      CutFails p source (.unknownTag content.trim (p.after front))

/-- A failure behind a tag. -/
theorem CutFails.behindTag {p : Position} {before content rest : Text} {piece : List Segment}
    {w : WrittenTag} {e : Error} (opens : ¬ openMark <:+: before ++ openMark.dropLast)
    (isPiece : TextPiece before piece)
    (closes : ¬ closeMark <:+: content ++ closeMark.dropLast)
    (position : w.position = p.after before) (reads : TagContent content w)
    (h : CutFails (p.after (before ++ openMark ++ content ++ closeMark)) rest e) :
    CutFails p (before ++ openMark ++ content ++ closeMark ++ rest) e := by
  cases h with
  | @unterminated front rest' more source_eq upTo unclosed =>
      rw [← Position.after_append]
      refine .unterminated ?_ (.tag opens isPiece closes position reads upTo) unclosed
      rw [source_eq]
      simp only [List.append_assoc]
  | @unreadable front content' rest' more source_eq upTo closes' noTag =>
      rw [← Position.after_append] at noTag ⊢
      have hsource : before ++ openMark ++ content ++ closeMark ++ rest =
          before ++ openMark ++ content ++ closeMark ++ front ++ openMark ++ content' ++
            closeMark ++ rest' := by
        rw [source_eq]
        simp only [List.append_assoc]
      exact .unreadable hsource (.tag opens isPiece closes position reads upTo) closes' noTag

theorem cutFails_of_segmentsFrom {p : Position} {source : Text} {e : Error}
    (h : segmentsFrom p source = .error e) : CutFails p source e := by
  fun_induction segmentsFrom p source with
  | case1 p source hnone => cases h
  | case2 p source before inner hopen opened hclose =>
      cases h
      obtain ⟨rfl, hopens⟩ := (Text.cut_eq_some_iff (by decide)).mp hopen
      exact .unterminated rfl (.text hopens (textPiece_ofText before))
        ((Text.cut_eq_none_iff (by decide) inner).mp hclose)
  | case3 p source before inner hopen opened content rest hclose ih =>
      obtain ⟨rfl, hopens⟩ := (Text.cut_eq_some_iff (by decide)).mp hopen
      obtain ⟨rfl, hcloses⟩ := (Text.cut_eq_some_iff (by decide)).mp hclose
      rw [← List.append_assoc, ← List.append_assoc]
      rcases bind_eq_error h with hread | ⟨w, hread, h⟩
      · obtain rfl := read_eq_error hread
        refine .unreadable rfl (.text hopens (textPiece_ofText before)) hcloses ?_
        intro w hposition hcontent
        rw [read_eq_ok_iff.mpr ⟨hposition, hcontent⟩] at hread
        cases hread
      · obtain ⟨hposition, hcontent⟩ := read_eq_ok_iff.mp hread
        rcases bind_eq_error h with hmore | ⟨more, -, hok⟩
        · have hfails := ih hmore
          rw [← Position.after_append, ← List.append_assoc, ← List.append_assoc] at hfails
          exact hfails.behindTag hopens (textPiece_ofText before) hcloses hposition hcontent
        · cases hok

/-! ## Where names are used -/

/-- The place of an argument is where its text begins. -/
theorem Arguments.at_name {p place : Position} {t name : Text} {arguments : List Argument}
    (h : Arguments p t arguments) (hmem : .variableName name place ∈ arguments) :
    ∃ lead tail, t = lead ++ name ++ tail ∧ place = p.after lead := by
  induction h with
  | done p => cases hmem
  | @blank p c cs arguments blank more ih =>
      obtain ⟨lead, tail, rfl, hplace⟩ := ih hmem
      exact ⟨c :: lead, tail, rfl, hplace⟩
  | @quoted p quote inner rest arguments opens closes more ih =>
      rcases List.mem_cons.mp hmem with hself | hmem
      · cases hself
      · obtain ⟨lead, tail, rfl, hplace⟩ := ih hmem
        refine ⟨quote :: inner ++ [quote] ++ lead, tail, ?_, ?_⟩
        · simp only [List.append_assoc, List.cons_append, List.nil_append]
        · rw [hplace, ← Position.after_append]
  | @word p c cs rest arguments solid unquoted more ih =>
      rcases List.mem_cons.mp hmem with hself | hmem
      · rw [wordArgument] at hself
        split at hself
        · cases hself
        · cases hself
          exact ⟨[], rest, rfl, rfl⟩
      · obtain ⟨lead, tail, rfl, hplace⟩ := ih hmem
        refine ⟨c :: cs ++ lead, tail, ?_, ?_⟩
        · simp only [List.append_assoc]
        · rw [hplace, ← Position.after_append]

/-- A name in the content of a tag. -/
theorem TagContent.at_name {content name : Text} {w : WrittenTag} {place : Position}
    (h : TagContent content w) (hmem : .variableName name place ∈ w.arguments) :
    ∃ lead tail, content = lead ++ name ++ tail ∧
      place = w.position.after (openMark ++ lead) := by
  cases h with
  | @mk front back named rest sign arguments position hfront hback hname hends hreads =>
      obtain ⟨lead, tail, rfl, rfl⟩ := hreads.at_name hmem
      refine ⟨front ++ sign.text ++ back ++ named ++ lead, tail, ?_, ?_⟩
      · simp only [List.append_assoc]
      · simp only [← Position.after_append, List.append_assoc]

/-- A name is used by a tag: as a placeholder, or in its arguments. -/
def WrittenTag.Uses (w : WrittenTag) (name : Text) (place : Position) : Prop :=
  w.IsPlaceholder ∧ w.name = name ∧ w.position = place ∨ .variableName name place ∈ w.arguments

section Uses

variable {name : Text} {place : Position}

theorem Argument.eq_of_mem_uses {a : Argument} (h : .name name place ∈ a.uses) :
    a = .variableName name place := by
  cases a with
  | literal value => cases h
  | variableName path position =>
      cases List.mem_singleton.mp h
      rfl

theorem mem_of_mem_flatMap_uses {arguments : List Argument}
    (h : Use.name name place ∈ arguments.flatMap Argument.uses) :
    .variableName name place ∈ arguments := by
  obtain ⟨a, hmem, ha⟩ := List.mem_flatMap.mp h
  exact Argument.eq_of_mem_uses ha ▸ hmem

theorem mem_uses_conditional {arms : List (Argument × List Node)} {last : Option (List Node)}
    {use : Use} (h : use ∈ (Node.conditional arms last).uses) :
    use ∈ armsUses arms ∨ ∃ body ∈ last, use ∈ nodesUses body := by
  cases last with
  | none => exact .inl h
  | some body => exact (List.mem_append.mp h).imp_right fun h => ⟨body, rfl, h⟩

mutual

/-- What the nodes of a derivation use is used by one of its tags. -/
theorem Block.exists_tag (d : Block registry) (h : .name name place ∈ nodesUses d.nodes) :
    ∃ w, .tag w ∈ d.segments ∧ w.Uses name place :=
  match d with
  | .done => by cases h
  | .text content more => by
      obtain ⟨w, hw, huses⟩ := more.exists_tag h
      exact ⟨w, List.mem_cons_of_mem _ hw, huses⟩
  | .placeholder w hw more => by
      rcases List.mem_append.mp h with h | h
      · cases List.mem_singleton.mp h
        exact ⟨w, List.mem_cons_self, .inl ⟨hw, rfl, rfl⟩⟩
      · obtain ⟨v, hv, huses⟩ := more.exists_tag h
        exact ⟨v, List.mem_cons_of_mem _ hv, huses⟩
  | .custom w hw more => by
      rcases List.mem_append.mp h with h | h
      · rcases List.mem_cons.mp h with h | h
        · cases h
        · exact ⟨w, List.mem_cons_self, .inr (mem_of_mem_flatMap_uses h)⟩
      · obtain ⟨v, hv, huses⟩ := more.exists_tag h
        exact ⟨v, List.mem_cons_of_mem _ hv, huses⟩
  | .conditional w condition hw body branches more => by
      simp only [Block.segments]
      rcases List.mem_append.mp h with h | h
      · rcases mem_uses_conditional h with h | hlast
        · rcases List.mem_append.mp h with h | harms
          · rcases List.mem_append.mp h with hcondition | hbody
            · obtain rfl := Argument.eq_of_mem_uses hcondition
              exact ⟨w, List.mem_cons_self, .inr (by simp [hw.2.2])⟩
            · obtain ⟨v, hv, huses⟩ := body.exists_tag hbody
              exact ⟨v, List.mem_cons_of_mem _ (List.mem_append_left _ hv), huses⟩
          · obtain ⟨v, hv, huses⟩ := branches.exists_tag (.inl harms)
            exact ⟨v, by simp [hv], huses⟩
        · obtain ⟨v, hv, huses⟩ := branches.exists_tag (.inr hlast)
          exact ⟨v, by simp [hv], huses⟩
      · obtain ⟨v, hv, huses⟩ := more.exists_tag h
        exact ⟨v, by simp [hv], huses⟩

theorem Branches.exists_tag (d : Branches registry)
    (h : .name name place ∈ armsUses d.arms ∨ ∃ body ∈ d.last, .name name place ∈ nodesUses body) :
    ∃ w, .tag w ∈ d.segments ∧ w.Uses name place :=
  match d with
  | .close w hw => by
      rcases h with h | ⟨body, hbody, -⟩
      · cases h
      · cases hbody
  | .elif w condition hw body more => by
      simp only [Branches.segments]
      rcases h with h | hlast
      · rcases List.mem_append.mp h with h | harms
        · rcases List.mem_append.mp h with hcondition | hbody
          · obtain rfl := Argument.eq_of_mem_uses hcondition
            exact ⟨w, List.mem_cons_self, .inr (by simp [hw.2.2])⟩
          · obtain ⟨v, hv, huses⟩ := body.exists_tag hbody
            exact ⟨v, List.mem_cons_of_mem _ (List.mem_append_left _ hv), huses⟩
        · obtain ⟨v, hv, huses⟩ := more.exists_tag (.inl harms)
          exact ⟨v, by simp [hv], huses⟩
      · obtain ⟨v, hv, huses⟩ := more.exists_tag (.inr hlast)
        exact ⟨v, by simp [hv], huses⟩
  | .otherwise w hw body last hlast => by
      rcases h with h | ⟨nodes, hnodes, h⟩
      · cases h
      · cases hnodes
        obtain ⟨v, hv, huses⟩ := body.exists_tag h
        exact ⟨v, List.mem_cons_of_mem _ (List.mem_append_left _ hv), huses⟩

end

end Uses

/-! ## Causes -/

/-- What an error is about, and where in the source it is. -/
inductive Cause (registry : Registry) (env : Environment) (source : Text) : Error → Prop where
  /-- The first opening mark behind the tags before has no closing one
  behind it -/
  | unterminated {front rest : Text} {before : List Segment}
      (source_eq : source = front ++ openMark ++ rest) (upTo : UpTo .start front before)
      (unclosed : ¬ closeMark <:+: rest) :
      Cause registry env source (.unterminatedTag (.behind front))
  /-- Between the marks there is no tag -/
  | unreadable {front content rest : Text} {before : List Segment}
      (source_eq : source = front ++ openMark ++ content ++ closeMark ++ rest)
      (upTo : UpTo .start front before) (closes : ¬ closeMark <:+: content ++ closeMark.dropLast)
      (noTag : ∀ w, w.position = .behind front → ¬ TagContent content w) :
      Cause registry env source (.unknownTag content.trim (.behind front))
  | fault (t : TagIn source) {e : Error} (fault : Fault registry t.before t.written e) :
      Cause registry env source e
  /-- A conditional that is not left behind its first tag -/
  | unclosed (t : TagIn source) (opens : t.written.role = .opening) (stays : Within t.behind 0) :
      Cause registry env source (.unclosedBlock "if".toList (.behind t.front))
  | placeholder (t : TagIn source) (isPlaceholder : t.written.IsPlaceholder)
      (unknown : env.lookup t.written.name = none) :
      Cause registry env source (.unknownVariable t.written.name (.behind t.front))
  /-- An argument of a tag -/
  | argument (t : TagIn source) {lead name tail : Text}
      (content_eq : t.content = lead ++ name ++ tail)
      (isArgument : .variableName name (.behind (t.front ++ openMark ++ lead)) ∈
        t.written.arguments)
      (unknown : env.lookup name = none) :
      Cause registry env source
        (.unknownVariable name (.behind (t.front ++ openMark ++ lead)))

/-- The source goes on with a text at a place. -/
def At (source : Text) (place : Position) (text : Text) : Prop :=
  ∃ front rest, source = front ++ text ++ rest ∧ place = .behind front

/-- An error points at the opening marks of a tag, or at a name. -/
def Error.Points (source : Text) : Error → Prop
  | .unterminatedTag place | .unknownTag _ place | .unexpectedTag _ place
  | .unclosedBlock _ place => At source place openMark
  | .unknownVariable name place => At source place name ∨ At source place openMark
  | .argumentCount .. => True

theorem TagIn.at_position (t : TagIn source) : At source t.written.position openMark := by
  refine ⟨t.front, t.content ++ closeMark ++ t.rest, t.source_eq.trans ?_, t.position⟩
  simp only [List.append_assoc]

theorem Cause.points {e : Error} (h : Cause registry env source e) : e.Points source := by
  cases h with
  | @unterminated front rest before source_eq upTo unclosed => exact ⟨front, rest, source_eq, rfl⟩
  | @unreadable front content rest before source_eq upTo closes noTag =>
      refine ⟨front, content ++ closeMark ++ rest, ?_, rfl⟩
      rw [source_eq]
      simp only [List.append_assoc]
  | fault t fault =>
      cases fault with
      | count expects found => exact trivial
      | unknown custom unknown => exact t.at_position
      | misplaced misplaced => exact t.at_position
  | unclosed t opens stays => exact t.position ▸ t.at_position
  | placeholder t isPlaceholder unknown => exact .inr (t.position ▸ t.at_position)
  | @argument t lead name tail content_eq isArgument unknown =>
      refine .inl ⟨t.front ++ openMark ++ lead, tail ++ closeMark ++ t.rest, ?_, rfl⟩
      conv_lhs => rw [t.source_eq, content_eq]
      simp only [List.append_assoc]

/-! ## The result -/

theorem cause_of_compile {e : Error} (h : compile registry source = .error e) :
    Cause registry env source e := by
  rcases bind_eq_error h with hcut | ⟨segments, hcut, h⟩
  · cases cutFails_of_segmentsFrom hcut with
    | unterminated source_eq upTo unclosed =>
        rw [Position.start_after]
        exact .unterminated source_eq upTo unclosed
    | unreadable source_eq upTo closes noTag =>
        rw [Position.start_after] at noTag ⊢
        exact .unreadable source_eq upTo closes noTag
  · have hcut := segmentsFrom_eq_ok_iff.mp hcut
    rcases bind_eq_error h with hrun | ⟨b, hrun, h⟩
    · obtain ⟨before, s, behind, b, rfl, hbefore, hstep⟩ := exists_of_foldlM_eq_error hrun
      obtain ⟨w, rfl, hfault⟩ := (follows_of_foldlM hbefore).fault_of_step hstep
      obtain ⟨t, rfl, rfl, -⟩ := exists_tagIn hcut rfl
      exact .fault t hfault
    · rcases bind_eq_error h with hfinish | ⟨nodes, -, hok⟩
      · obtain ⟨position, rfl, before, w, behind, rfl, ⟨hrole, rfl⟩, hbehind⟩ :=
          (follows_of_foldlM hrun).unclosed hfinish
        obtain ⟨t, rfl, rfl, rfl⟩ := exists_tagIn hcut rfl
        rw [t.position]
        exact .unclosed t hrole hbehind
      · cases hok

theorem cause_of_render {t : Template} {e : Error} (ht : compile registry source = .ok t)
    (h : t.render env registry = .error e) : Cause registry env source e := by
  obtain ⟨d⟩ := exists_derivation ht
  obtain rfl := Except.ok.inj (d.compile_eq.symm.trans ht)
  have hlacks : OnlyLacks env (nodesUses d.block.nodes) (.error e : Except Error Text) :=
    h ▸ onlyLacks_renderNodes d.block.nodes d.block.knows_uses
  cases hlacks with
  | @lacks name place used unknown =>
      obtain ⟨w, hmem, huses⟩ := d.block.exists_tag used
      obtain ⟨before, behind, hsplit⟩ := List.append_of_mem hmem
      obtain ⟨t, -, rfl, -⟩ := exists_tagIn d.cut hsplit
      rcases huses with ⟨hplaceholder, rfl, rfl⟩ | hargument
      · rw [t.position]
        exact .placeholder t hplaceholder unknown
      · obtain ⟨lead, tail, hcontent, hplace⟩ := t.reads.at_name hargument
        rw [t.position, ← Position.start_after, ← Position.after_append, Position.start_after,
          ← List.append_assoc] at hplace
        subst hplace
        exact .argument t hcontent hargument unknown

/-- Whatever the source, the environment and the registry, an error is
about what stands at the place it names. -/
theorem expand_cause {e : Error} (h : expand registry env source = .error e) :
    Cause registry env source e ∧ e.Points source := by
  have hcause : Cause registry env source e := by
    rcases bind_eq_error h with hcompile | ⟨t, ht, hrender⟩
    · exact cause_of_compile hcompile
    · exact cause_of_render ht hrender
  exact ⟨hcause, hcause.points⟩

/-- Letters of two bytes, a line feed inside a tag, and a conditional that
is closed. -/
def wideLetters : Text :=
  "é\x7b\x7b#if\n A\x7d\x7dü \x7b\x7b#comment_if  B\x7d\x7d\x7b\x7b/if\x7d\x7d".toList

/-- The tag that closes a conditional is not there. -/
def withoutClosing : Text := wideLetters.take 31

theorem expand_cause_wideLetters :
    (∃ e, expand .standard truthA wideLetters = .error e ∧ e = .unknownVariable ['B'] ⟨2, 22⟩ ∧
      Cause .standard truthA wideLetters e ∧ e.Points wideLetters) ∧
    ∃ e, expand .standard truthA withoutClosing = .error e ∧ e = .unclosedBlock "if".toList ⟨1, 2⟩ ∧
      Cause .standard truthA withoutClosing e ∧ e.Points withoutClosing := by
  have hname : expand .standard truthA wideLetters = .error (.unknownVariable ['B'] ⟨2, 22⟩) := by
    decide +kernel
  have hopen : expand .standard truthA withoutClosing =
      .error (.unclosedBlock "if".toList ⟨1, 2⟩) := by
    decide +kernel
  exact ⟨⟨_, hname, rfl, expand_cause hname⟩, ⟨_, hopen, rfl, expand_cause hopen⟩⟩

end Template

end Tsql
