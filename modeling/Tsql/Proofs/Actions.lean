import Mathlib.Data.List.Sort
import Tsql.Proofs.Taking

/-!
# Runs of an action of any kind

A pass gives an account of what it does at a token: so many tokens taken,
these reports. An action in general is given the cursor itself and may look
ahead, take tokens and report in any order, as often as it likes, and go by
all that it has seen in the script so far. `Action` is that: what it does
at a token is a list of `Move`s, chosen with the calls made before, the
token and the cursor in view.

This makes no second way of running. `Action.logFrom` notes the calls that
an action is given, one after the other, and `traceFrom_pass` says that
running a pass that acts like it comes to the same calls. A pass has no
memory, but its place tells how far the run has come, and `Action.pass`
goes over the calls before that place again. The other way round every
pass is an action (`pass_ofPass`).

A cursor only moves on, and between two calls it moves by one token. So the
places of the tokens offered and stepped over, listed call by call, are the
places of the script in order (`logFrom_places`): none is missing and none
comes twice.
-/

namespace Tsql

/-! ## Cursors over a script -/

namespace Cursor

/-- The cursor stands somewhere in the tokens, or right behind them. -/
structure On (tokens : List Token) (c : Cursor) : Prop where
  size : c.size = tokens.length
  ahead : c.ahead = tokens.drop c.position
  within : c.position ≤ tokens.length

/-- How many tokens there are up to the place, the current one
included. -/
def reached (c : Cursor) : Nat := min (c.position + 1) c.size

/-- The places of the tokens that moving to the next one steps over. -/
def steppedOver (c : Cursor) : List Nat :=
  (List.range c.size).filter fun i => c.position < i && i ≤ c.consume.position

variable {tokens : List Token} {c : Cursor}

theorem on_start (tokens : List Token) : On tokens (start tokens) :=
  ⟨rfl, rfl, Nat.zero_le _⟩

theorem On.report (h : c.On tokens) (messages : List String) : (c.report messages).On tokens :=
  ⟨h.size, h.ahead, h.within⟩

theorem On.getElem? (h : c.On tokens) {t : Token} {ts : List Token} (hahead : c.ahead = t :: ts) :
    tokens[c.position]? = some t := by
  rw [← List.head?_drop, ← h.ahead, hahead]
  rfl

theorem On.position_lt (h : c.On tokens) {t : Token} {ts : List Token}
    (hahead : c.ahead = t :: ts) : c.position < tokens.length :=
  (List.getElem?_eq_some_iff.mp (h.getElem? hahead)).1

theorem On.position_eq (h : c.On tokens) (hahead : c.ahead = []) :
    c.position = tokens.length := by
  have hle : tokens.length ≤ c.position := by
    rwa [h.ahead, List.drop_eq_nil_iff] at hahead
  exact Nat.le_antisymm h.within hle

/-- Where the next token is that is not white space: behind all that
is. -/
theorem On.consume (h : c.On tokens) : c.consume.On tokens ∧ c.position ≤ c.consume.position := by
  have htail : c.ahead.tail = tokens.drop (c.position + 1) := by
    rw [h.ahead, List.tail_drop]
  have hsplit := List.takeWhile_append_dropWhile (p := (·.isWhitespace)) (l := c.ahead.tail)
  cases hrest : c.ahead.tail.dropWhile (·.isWhitespace) with
  | nil =>
      have hconsume : c.consume = { c with position := c.size, ahead := [] } := by
        rw [Cursor.consume, hrest]
      rw [hconsume]
      refine ⟨⟨h.size, ?_, Nat.le_of_eq h.size⟩, ?_⟩
      · rw [h.size, List.drop_length]
      · rw [h.size]
        exact h.within
  | cons t ts =>
      have hconsume : c.consume = { c with
          position := c.position + 1 + (c.ahead.tail.takeWhile (·.isWhitespace)).length
          ahead := t :: ts } := by
        rw [Cursor.consume, hrest]
      have hdrop : tokens.drop
          (c.position + 1 + (c.ahead.tail.takeWhile (·.isWhitespace)).length) = t :: ts := by
        rw [← List.drop_drop, ← htail, ← hrest]
        nth_rewrite 2 [← hsplit]
        rw [List.drop_left]
      rw [hconsume]
      refine ⟨⟨h.size, hdrop.symm, ?_⟩, by dsimp only; omega⟩
      have hlen := congrArg List.length hdrop
      rw [List.length_drop, List.length_cons] at hlen
      dsimp only
      omega

theorem On.advance (h : c.On tokens) : c.advance.On tokens ∧ c.advance.position = c.reached := by
  cases hahead : c.ahead with
  | nil =>
      have hadvance : c.advance = c := by rw [Cursor.advance, hahead]
      have hend := h.position_eq hahead
      rw [hadvance]
      refine ⟨h, ?_⟩
      rw [reached, h.size]
      omega
  | cons t ts =>
      have hadvance : c.advance = { c with position := c.position + 1, ahead := ts } := by
        rw [Cursor.advance, hahead]
      have hlt := h.position_lt hahead
      rw [hadvance]
      refine ⟨⟨h.size, ?_, hlt⟩, ?_⟩
      · rw [← List.tail_drop, ← h.ahead, hahead]
        rfl
      · rw [reached, h.size]
        dsimp only
        omega

/-- What is stepped over fills the gap, each place once and in order. -/
theorem On.range_steppedOver (h : c.On tokens) :
    List.range c.reached ++ c.steppedOver = List.range c.consume.reached := by
  obtain ⟨hon, hle⟩ := h.consume
  have hbetween : ∀ i, i ∈ c.steppedOver ↔
      i < tokens.length ∧ c.position < i ∧ i ≤ c.consume.position := by
    intro i
    simp [steppedOver, h.size]
  refine List.Pairwise.eq_of_mem_iff (r := (· < ·)) ?_ List.pairwise_lt_range ?_
  · refine List.pairwise_append.mpr
      ⟨List.pairwise_lt_range, List.Pairwise.filter _ List.pairwise_lt_range, ?_⟩
    intro i hi j hj
    have hjs := (hbetween j).mp hj
    rw [List.mem_range, reached] at hi
    omega
  · intro i
    rw [List.mem_append, List.mem_range, List.mem_range, hbetween, reached, reached, h.size,
      hon.size]
    omega

end Cursor

namespace Pass

/-! ## Moves -/

/-- A use of the cursor. -/
inductive Move where
  /-- Looks at an upcoming token -/
  | peek (offset : Nat)
  /-- Goes to the next token that is not white space -/
  | consume
  | report (message : String)
  deriving DecidableEq, Repr

namespace Move

def apply (c : Cursor) : Move → Cursor
  | peek _ => c
  | consume => c.consume
  | report message => c.report [message]

/-- The places of the tokens that are stepped over. -/
def stepped (c : Cursor) : Move → List Nat
  | consume => c.steppedOver
  | _ => []

def messages : Move → List String
  | report message => [message]
  | _ => []

end Move

/-- Where moves leave a cursor. -/
def moved (c : Cursor) (moves : List Move) : Cursor := moves.foldl Move.apply c

/-- The places of the tokens that moves step over. -/
def steppedBy (c : Cursor) : List Move → List Nat
  | [] => []
  | m :: more => m.stepped c ++ steppedBy (m.apply c) more

variable {tokens : List Token} {c : Cursor}

theorem moved_cons (c : Cursor) (m : Move) (more : List Move) :
    moved c (m :: more) = moved (m.apply c) more := rfl

/-- Every move leaves the cursor in the script and no further back, and
what it steps over fills the gap. -/
theorem move_on (h : c.On tokens) (m : Move) :
    (m.apply c).On tokens ∧ c.position ≤ (m.apply c).position ∧
      List.range c.reached ++ m.stepped c = List.range (m.apply c).reached := by
  cases m with
  | peek offset => exact ⟨h, Nat.le_refl _, List.append_nil _⟩
  | consume => exact ⟨h.consume.1, h.consume.2, h.range_steppedOver⟩
  | report message => exact ⟨h.report [message], Nat.le_refl _, List.append_nil _⟩

theorem moved_on (h : c.On tokens) (moves : List Move) :
    (moved c moves).On tokens ∧ c.position ≤ (moved c moves).position ∧
      List.range c.reached ++ steppedBy c moves = List.range (moved c moves).reached := by
  induction moves generalizing c with
  | nil => exact ⟨h, Nat.le_refl _, List.append_nil _⟩
  | cons m more ih =>
      obtain ⟨hon, hle, hrange⟩ := move_on h m
      obtain ⟨hon', hle', hrange'⟩ := ih hon
      refine ⟨hon', Nat.le_trans hle hle', ?_⟩
      rw [steppedBy, ← List.append_assoc, hrange, hrange', moved_cons]

/-! ## Moves and decisions

Reports do not get in the way of a cursor, so that of the order of moves
only the order among the reports counts. -/

theorem report_report (c : Cursor) (messages more : List String) :
    (c.report messages).report more = c.report (messages ++ more) := by
  rw [Cursor.report, Cursor.report, Cursor.report, List.append_assoc]

theorem consume_report (c : Cursor) (messages : List String) :
    (c.report messages).consume = c.consume.report messages := by
  have hahead : (c.report messages).ahead = c.ahead := rfl
  rw [Cursor.consume, Cursor.consume, hahead]
  split <;> rfl

theorem consumeN_report (c : Cursor) (messages : List String) (n : Nat) :
    (c.report messages).consumeN n = (c.consumeN n).report messages := by
  induction n generalizing c with
  | zero => rfl
  | succ n ih => rw [Cursor.consumeN, consume_report, ih, Cursor.consumeN]

theorem moved_eq (c : Cursor) (moves : List Move) :
    moved c moves =
      (c.consumeN (moves.count .consume)).report (moves.flatMap Move.messages) := by
  induction moves generalizing c with
  | nil => simp [moved, Cursor.consumeN, Cursor.report]
  | cons m more ih =>
      rw [moved_cons, ih]
      cases m with
      | peek offset => simp [Move.apply, Move.messages]
      | consume => simp [Move.apply, Move.messages, Cursor.consumeN]
      | report message =>
          rw [Move.apply, consumeN_report, report_report]
          simp [Move.messages]

/-! ## Actions -/

/-- What an action does when it is called: its moves, the tokens it gives
back unless it fails, and what it asks of the mapping it is made from. -/
structure Conduct where
  moves : List Move
  result : Except Error (List Token)
  asked : List Question := []

/-- A call of an action. -/
structure Call where
  /-- The place of the token that was offered -/
  place : Nat
  /-- The token that was offered -/
  token : Token
  /-- The places of the tokens that were stepped over -/
  stepped : List Nat
  returned : List Token
  reports : List String
  asked : List Question

/-- All the places that a call has to do with. -/
def Call.places (k : Call) : List Nat := k.place :: k.stepped

/-- An action that uses its cursor by moves alone. Which moves these are
may depend on anything that was there to be seen: the calls before, the
token and all that the cursor shows. -/
structure Action where
  name : String
  conduct : List Call → Token → Cursor → Conduct

/-- The calls that were made, and the error if one of them failed. -/
structure Log where
  calls : List Call
  failure : Option Error

/-- What the calls come to together, after what was reported before. -/
def Log.trace (log : Log) (diagnostics : List String) : Except Error Trace :=
  match log.failure with
  | some e => .error e
  | none => .ok ⟨log.calls.flatMap Call.returned, log.calls.flatMap Call.asked,
      diagnostics ++ log.calls.flatMap Call.reports⟩

theorem Log.trace_cons (call : Call) (rest : Log) (diagnostics : List String) :
    Log.trace ⟨call :: rest.calls, rest.failure⟩ diagnostics = do
      let more ← rest.trace (diagnostics ++ call.reports)
      return ⟨call.returned ++ more.emitted, call.asked ++ more.asked, more.reports⟩ := by
  rw [trace, trace]
  cases rest.failure with
  | some e => rfl
  | none => simp [bind, Except.bind, pure, Except.pure]

def Conduct.call (k : Conduct) (c : Cursor) (t : Token) : Call where
  place := c.position
  token := t
  stepped := steppedBy c k.moves
  returned := k.result.toOption.getD []
  reports := k.moves.flatMap Move.messages
  asked := k.asked

/-- The account that a pass would give. -/
def Conduct.decision (k : Conduct) : Except Error Decision :=
  k.result.map fun emitted =>
    { emitted, consumed := k.moves.count .consume
      reports := k.moves.flatMap Move.messages, asked := k.asked }

theorem length_moved_le (c : Cursor) (moves : List Move) :
    (moved c moves).ahead.length ≤ c.ahead.length := by
  rw [moved_eq]
  exact Cursor.length_consumeN_le c _

namespace Action

/-- The calls of an action from a cursor on, after those made before. -/
def logFrom (a : Action) (before : List Call) (c : Cursor) : Log :=
  match _h : c.ahead with
  | [] => ⟨[], none⟩
  | t :: _ =>
    let k := a.conduct before t c
    let call := k.call c t
    match k.result with
    | .error e => ⟨[call], some e⟩
    | .ok _ =>
      let rest := a.logFrom (before ++ [call]) (moved c k.moves).advance
      ⟨call :: rest.calls, rest.failure⟩
termination_by c.ahead.length
decreasing_by
  have := length_moved_le c (a.conduct before t c).moves
  simp only [Cursor.ahead_advance, List.length_tail]
  rw [_h] at *
  simp only [List.length_cons] at *
  omega

/-- The calls of an action over a script. -/
def log (a : Action) (tokens : List Token) : Log := a.logFrom [] (.start tokens)

/-- The pass that acts over the tokens as the action does: it recalls what
was done before its place. -/
def pass (a : Action) (tokens : List Token) : Pass where
  name := a.name
  step t c := (a.conduct ((a.log tokens).calls.takeWhile (·.place < c.position)) t c).decision

/-- A pass as an action: it takes what it says it takes, and then
reports. -/
def ofPass (pass : Pass) : Action where
  name := pass.name
  conduct _ t c :=
    match pass.step t c with
    | .error e => { moves := [], result := .error e }
    | .ok d =>
      { moves := List.replicate d.consumed .consume ++ d.reports.map .report
        result := .ok d.emitted
        asked := d.asked }

theorem pass_ofPass (pass : Pass) (tokens : List Token) : (ofPass pass).pass tokens = pass := by
  have hreports : ∀ messages : List String,
      (messages.map Move.report).flatMap Move.messages = messages := by
    intro messages
    rw [List.flatMap_map]
    exact List.flatMap_singleton' messages
  have hcount : ∀ messages : List String, (messages.map Move.report).count .consume = 0 := by
    intro messages
    rw [List.count_eq_zero]
    simp
  have hnone : ∀ n, (List.replicate n Move.consume).flatMap Move.messages = [] := by
    intro n
    simp [Move.messages]
  have hstep : ((ofPass pass).pass tokens).step = pass.step := by
    funext t c
    rw [Action.pass, ofPass]
    dsimp only
    cases pass.step t c with
    | error e => rfl
    | ok d => simp [Conduct.decision, Except.map, hreports, hcount, hnone]
  cases pass
  exact congrArg (Pass.mk _) hstep

/-! ## Runs -/

variable {a : Action} {before : List Call}

/-- The places that a call has to do with reach from the token it was
offered to the next that is offered. -/
theorem range_call (hc : c.On tokens) {t : Token} {ts : List Token} (hahead : c.ahead = t :: ts)
    (k : Conduct) :
    List.range c.position ++ (k.call c t).places =
      List.range (moved c k.moves).advance.position := by
  have hlt := hc.position_lt hahead
  have hreached : c.reached = c.position + 1 := by
    rw [Cursor.reached, hc.size]
    omega
  obtain ⟨hon, -, hrange⟩ := moved_on hc k.moves
  rw [hreached, List.range_succ, List.append_assoc] at hrange
  rw [hon.advance.2, ← hrange]
  rfl

/-- A run offers or steps over the places from its cursor on, one after
the other, as far as it comes. -/
theorem logFrom_places (a : Action) (before : List Call) (hc : c.On tokens) :
    ∃ n ≤ tokens.length,
      List.range c.position ++ (a.logFrom before c).calls.flatMap Call.places = List.range n ∧
      ((a.logFrom before c).failure = none → n = tokens.length) := by
  fun_induction logFrom a before c with
  | case1 before c hahead =>
      exact ⟨c.position, hc.within, List.append_nil _, fun _ => hc.position_eq hahead⟩
  | case2 before c t ts hahead k call e hresult =>
      refine ⟨_, (moved_on hc k.moves).1.advance.1.within, ?_, by simp⟩
      rw [List.flatMap_singleton, range_call hc hahead k]
  | case3 before c t ts hahead k call returned hresult rest ih =>
      obtain ⟨n, hn, hrange, hall⟩ := ih (moved_on hc k.moves).1.advance.1
      refine ⟨n, hn, ?_, hall⟩
      rw [List.flatMap_cons, ← List.append_assoc, range_call hc hahead k, hrange]

/-- The token of a call is the one at its place. -/
theorem token_of_mem_logFrom (hc : c.On tokens) {k : Call}
    (hk : k ∈ (a.logFrom before c).calls) : tokens[k.place]? = some k.token := by
  fun_induction logFrom a before c with
  | case1 => cases hk
  | case2 before c t ts hahead conduct call e hresult =>
      obtain rfl := List.mem_singleton.mp hk
      exact hc.getElem? hahead
  | case3 before c t ts hahead conduct call returned hresult rest ih =>
      rcases List.mem_cons.mp hk with rfl | hmore
      · exact hc.getElem? hahead
      · exact ih (moved_on hc conduct.moves).1.advance.1 hmore

/-- The account of a conduct moves a cursor as the conduct did. -/
theorem move_of_decision {k : Conduct} {d : Decision} (h : k.decision = .ok d) (c : Cursor) :
    d.move c = moved c k.moves := by
  cases hresult : k.result with
  | error e =>
      rw [Conduct.decision, hresult] at h
      cases h
  | ok emitted =>
      rw [Conduct.decision, hresult] at h
      obtain rfl := Except.ok.inj h
      rw [moved_eq]
      rfl

/-- At its place a pass recalls the calls that were made before. -/
theorem step_pass {first : Call} {rest : List Call}
    (hlog : (a.log tokens).calls = before ++ first :: rest)
    (hbefore : ∀ k ∈ before, k.place < c.position) (hfirst : first.place = c.position)
    (t : Token) : (a.pass tokens).step t c = (a.conduct before t c).decision := by
  have hrecall : (a.log tokens).calls.takeWhile (·.place < c.position) = before := by
    rw [hlog, List.takeWhile_append_of_pos (by simpa using hbefore)]
    simp [hfirst]
  simp only [pass, hrecall]

/-- A run of the pass that acts like an action comes to its calls. -/
theorem traceFrom_pass (hc : c.On tokens)
    (hlog : (a.log tokens).calls = before ++ (a.logFrom before c).calls)
    (hbefore : ∀ k ∈ before, k.place < c.position) :
    (a.pass tokens).traceFrom c = (a.logFrom before c).trace c.diagnostics := by
  fun_induction logFrom a before c with
  | case1 before c hahead =>
      rw [traceFrom_nil hahead, Log.trace]
      simp
  | case2 before c t ts hahead k call e hresult =>
      rw [traceFrom_cons hahead, step_pass hlog hbefore rfl, Conduct.decision, hresult]
      rfl
  | case3 before c t ts hahead k call returned hresult rest ih =>
      obtain ⟨hon, hle, -⟩ := moved_on hc k.moves
      have hreached : c.position < (moved c k.moves).advance.position := by
        have hlt := hc.position_lt hahead
        rw [hon.advance.2, Cursor.reached, hon.size]
        omega
      have hlater : ∀ j ∈ before ++ [call], j.place < (moved c k.moves).advance.position := by
        intro j hj
        rcases List.mem_append.mp hj with hold | hnew
        · exact Nat.lt_trans (hbefore j hold) hreached
        · obtain rfl := List.mem_singleton.mp hnew
          exact hreached
      have hmore := ih hon.advance.1 (by rw [hlog, List.append_assoc]; rfl) hlater
      have hdecision : k.decision =
          .ok ⟨call.returned, k.moves.count .consume, call.reports, call.asked⟩ := by
        simp [Conduct.decision, hresult, call, Conduct.call, Except.map, Except.toOption]
      have hdiagnostics :
          (moved c k.moves).advance.diagnostics = c.diagnostics ++ call.reports := by
        rw [← move_of_decision hdecision, diagnostics_move_advance]
      rw [hdiagnostics] at hmore
      rw [traceFrom_cons hahead, step_pass hlog hbefore rfl, hdecision, Log.trace_cons, ← hmore,
        ← move_of_decision hdecision]
      rfl

end Action

/-! ## Scripts -/

theorem sublist_places (calls : List Call) :
    (calls.map Call.place).Sublist (calls.flatMap Call.places) := by
  induction calls with
  | nil => exact .slnil
  | cons k calls ih =>
      rw [List.map_cons, List.flatMap_cons, Call.places, List.cons_append]
      exact (ih.trans (List.sublist_append_right _ _)).cons_cons _

theorem count_places (calls : List Call) (i : Nat) :
    (calls.flatMap Call.places).count i =
      (calls.map Call.place).count i + (calls.flatMap Call.stepped).count i := by
  induction calls with
  | nil => rfl
  | cons k calls ih =>
      simp only [List.flatMap_cons, List.map_cons, List.count_append, ih, Call.places,
        List.count_cons]
      omega

/-- Whatever an action does with its cursor, its run over a script ends
after at most one call for each token. Tokens are offered in order; the
places that were offered or stepped over, listed call by call, are those
of the script up to where the run came, each of them once, and a run
without error comes to the end. The outcome is what the calls gave back
and reported. Every pass acts in this way. -/
theorem action_calls {level : Level} {script : Text}
    (hproblems : (Script.parse level script).problems = []) (a : Action) :
    let tokens := (Script.parse level script).body
    let log := a.log tokens
    log.calls.length ≤ tokens.length ∧
    (log.calls.map Call.place).Pairwise (· < ·) ∧
    (∀ k ∈ log.calls, tokens[k.place]? = some k.token) ∧
    (∃ n ≤ tokens.length, log.calls.flatMap Call.places = List.range n ∧
      (∀ i < n, (log.calls.map Call.place).count i +
        (log.calls.flatMap Call.stepped).count i = 1) ∧
      (log.failure = none → n = tokens.length)) ∧
    (a.pass tokens).run level script =
      (match log.failure with
      | some e => .error e
      | none => .ok ⟨Token.textOf (log.calls.flatMap Call.returned), [],
          log.calls.flatMap Call.reports, log.calls.flatMap Call.asked⟩) ∧
    ∀ pass : Pass, (Action.ofPass pass).pass tokens = pass := by
  intro tokens log
  have hon := Cursor.on_start tokens
  obtain ⟨n, hn, hplaces, hall⟩ : ∃ n ≤ tokens.length,
      log.calls.flatMap Call.places = List.range n ∧ (log.failure = none → n = tokens.length) :=
    Action.logFrom_places a [] hon
  have hsublist : (log.calls.map Call.place).Sublist (List.range n) :=
    hplaces ▸ sublist_places log.calls
  have hlength : log.calls.length ≤ n := by
    simpa using hsublist.length_le
  refine ⟨Nat.le_trans hlength hn, List.pairwise_lt_range.sublist hsublist,
    fun k hk => Action.token_of_mem_logFrom hon hk, ⟨n, hn, hplaces, ?_, hall⟩, ?_,
    fun pass => Action.pass_ofPass pass tokens⟩
  · intro i hi
    rw [← count_places, hplaces]
    exact List.count_eq_one_of_mem List.nodup_range (List.mem_range.mpr hi)
  · have htrace : (a.pass tokens).traceFrom (.start tokens) = log.trace [] :=
      Action.traceFrom_pass hon rfl (by simp)
    rw [run_eq_map hproblems, htrace, Log.trace]
    cases log.failure <;> rfl

/-- Puts the number behind each `TOP` in parentheses, and says so from the
second on. -/
def parenthesizeTop : Action where
  name := "parenthesize-top"
  conduct before t c :=
    match t.isKeyword "TOP", c.peek 1 with
    | true, some number =>
      if number.kind = .numberLiteral then
        { moves := [.peek 1, .consume] ++
            if before.any (!·.stepped.isEmpty) then [.report "again"] else []
          result := .ok [t, .synthetic .whitespace [' '], .synthetic .leftParen ['('], number,
            .synthetic .rightParen [')']] }
      else { moves := [.peek 1], result := .ok [t] }
    | _, _ => { moves := [.peek 1], result := .ok [t] }

def twoTops : Text := "SELECT TOP   10 a FROM (SELECT TOP 5 b FROM t) s".toList

theorem action_calls_twoTops :
    (Script.parse .sql110 twoTops).problems = [] ∧
    (parenthesizeTop.log (Script.parse .sql110 twoTops).body).calls.flatMap Call.places =
      List.range (Script.parse .sql110 twoTops).body.length ∧
    (parenthesizeTop.pass (Script.parse .sql110 twoTops).body).run .sql110 twoTops =
      .ok ⟨"SELECT TOP (10) a FROM (SELECT TOP (5) b FROM t) s".toList, [], ["again"], []⟩ := by
  have hproblems : (Script.parse .sql110 twoTops).problems = [] := by decide +kernel
  have hnone : (parenthesizeTop.log (Script.parse .sql110 twoTops).body).failure = none := by
    decide +kernel
  obtain ⟨-, -, -, ⟨n, -, hplaces, -, hall⟩, hrun, -⟩ := action_calls hproblems parenthesizeTop
  refine ⟨hproblems, ?_, ?_⟩
  · rw [hplaces, hall hnone]
  · rw [hrun, hnone]
    decide +kernel

end Pass

end Tsql
