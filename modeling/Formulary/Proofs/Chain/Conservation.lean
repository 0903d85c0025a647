import Formulary.Proofs.Chain.Conversion
import Formulary.Proofs.Chain.Language

/-!
# From tokens to nodes

The value of each conversion becomes one node of the tree, and the nodes stand in the order of the
conversions: a binary operator between its operands, any other node before what belongs to it.
`Assembled` says so of the trees that a parser may build, by one rule for each kind of node.  The
procedures of the parser follow in their order, up to `Parser.expression_converts`.

Where the conversion keeps the token and the role, the tree can be read back
(`Assembled.reading_eq`), which is how no token is lost, doubled or moved
(`Parser.tokens_once_in_order`). -/

namespace Formulary

open Chain (Role)

/-! ## 1. Trees in the order of the source -/

/-- The number of children that a node of the role may have. -/
def Chain.Role.Takes : Role → Nat → Prop
  | .atom, n => n = 0
  | .unaryOperator, n => n = 1
  | .binaryOperator, n => n = 2
  | .function, n => 1 ≤ n

namespace Tree

/-- Each node has as many children as its role takes. -/
inductive Regular : Tree (Token × Role) → Prop
  | node {v : Token × Role} {ts : List (Tree (Token × Role))} :
      v.2.Takes ts.length → (∀ t ∈ ts, Regular t) → Regular (.node v ts)

mutual

/-- The nodes in the order of the source: a binary operator between its operands, any other node
before what stands below it. -/
def reading : Tree (Token × Role) → List (Token × Role)
  | .node (t, .binaryOperator) [left, right] =>
    left.reading ++ (t, .binaryOperator) :: right.reading
  | .node v ts => v :: readingAll ts

def readingAll : List (Tree (Token × Role)) → List (Token × Role)
  | [] => []
  | t :: ts => t.reading ++ readingAll ts

end

end Tree

namespace Chain

open Feed (Closes)

variable {ε α : Type}

/-- `Assembled p ts calls`: the trees `ts` are put together from the values that the conversions
`calls` give, each used once and in the order of the source. -/
inductive Assembled (p : Parser ε α) : List (Tree α) → List (Token × Role) → Prop
  | nil : Assembled p [] []
  | cons {tree : Tree α} {trees : List (Tree α)} {calls calls' : List (Token × Role)} :
      Assembled p [tree] calls → Assembled p trees calls' →
      Assembled p (tree :: trees) (calls ++ calls')
  | atom {t : Token} {v : α} :
      p.convert t .atom = .ok v → Assembled p [.leaf v] [(t, .atom)]
  | unary {t : Token} {v : α} {operand : Tree α} {calls : List (Token × Role)} :
      p.convert t .unaryOperator = .ok v → Assembled p [operand] calls →
      Assembled p [.node v [operand]] ((t, .unaryOperator) :: calls)
  | binary {t : Token} {v : α} {left right : Tree α} {calls calls' : List (Token × Role)} :
      p.convert t .binaryOperator = .ok v → Assembled p [left] calls → Assembled p [right] calls' →
      Assembled p [.node v [left, right]] (calls ++ (t, .binaryOperator) :: calls')
  | function {t : Token} {v : α} {args : List (Tree α)} {calls : List (Token × Role)} :
      p.convert t .function = .ok v → args ≠ [] → Assembled p args calls →
      Assembled p [.node v args] ((t, .function) :: calls)

/-- **Trees of tokens and roles are read back as the conversions** they were put together from, and
each node has the children that its role takes. -/
theorem Assembled.reading_eq {p : Parser ε (Token × Role)}
    (hp : ∀ t role, p.convert t role = .ok (t, role)) {ts : List (Tree (Token × Role))}
    {calls : List (Token × Role)} (h : Assembled p ts calls) :
    Tree.readingAll ts = calls ∧ ∀ t ∈ ts, t.Regular := by
  induction h with
  | nil => exact ⟨rfl, by simp⟩
  | cons _ _ ih ih' =>
    obtain ⟨hreading, hregular⟩ := ih
    obtain ⟨hreading', hregular'⟩ := ih'
    rw [Tree.readingAll, Tree.readingAll, List.append_nil] at hreading
    refine ⟨by rw [Tree.readingAll, hreading, hreading'], fun t ht => ?_⟩
    rcases List.mem_cons.mp ht with rfl | ht
    · exact hregular t List.mem_cons_self
    · exact hregular' t ht
  | @atom t v hv =>
    obtain rfl := Except.ok.inj ((hp t .atom).symm.trans hv)
    refine ⟨rfl, fun u hu => ?_⟩
    obtain rfl := List.mem_singleton.mp hu
    exact .node rfl (by simp)
  | @unary t v operand calls hv _ ih =>
    obtain rfl := Except.ok.inj ((hp t .unaryOperator).symm.trans hv)
    obtain ⟨hreading, hregular⟩ := ih
    refine ⟨?_, fun u hu => ?_⟩
    · rw [Tree.readingAll, Tree.reading, hreading]
      · simp [Tree.readingAll]
      · simp
    · obtain rfl := List.mem_singleton.mp hu
      exact .node rfl hregular
  | @binary t v left right calls calls' hv _ _ ihl ihr =>
    obtain rfl := Except.ok.inj ((hp t .binaryOperator).symm.trans hv)
    obtain ⟨hleft, hregular⟩ := ihl
    obtain ⟨hright, hregular'⟩ := ihr
    rw [Tree.readingAll, Tree.readingAll, List.append_nil] at hleft hright
    refine ⟨by simp [Tree.readingAll, Tree.reading, hleft, hright], fun u hu => ?_⟩
    obtain rfl := List.mem_singleton.mp hu
    refine .node rfl fun child hchild => ?_
    simp only [List.mem_cons, List.not_mem_nil, or_false] at hchild
    rcases hchild with rfl | rfl
    · exact hregular _ List.mem_cons_self
    · exact hregular' _ List.mem_cons_self
  | @function t v args calls hv hargs _ ih =>
    obtain rfl := Except.ok.inj ((hp t .function).symm.trans hv)
    obtain ⟨hreading, hregular⟩ := ih
    refine ⟨?_, fun u hu => ?_⟩
    · rw [Tree.readingAll, Tree.reading, hreading]
      · simp [Tree.readingAll]
      · simp
    · obtain rfl := List.mem_singleton.mp hu
      exact .node (List.length_pos_iff.mpr hargs) hregular

/-! ## 2. The procedures of the parser -/

namespace Parser

variable {p : Parser ε α} {pre : Cursor → Prop}

theorem atom_converts : Converts p pre p.atom fun tree calls => Assembled p [tree] calls := by
  unfold atom
  refine .peek fun t => ?_
  split
  · next hid => exact .skip_valueOf (List.contains_iff_mem.mp hid) fun v hv => .pure (.atom hv)
  · exact .failIn rfl

theorem unary_converts (room depth : Nat) :
    Converts p pre (p.unary room depth) fun tree calls => Assembled p [tree] calls := by
  induction room generalizing depth pre with
  | zero =>
    unfold unary
    refine .peek fun t => ?_
    dsimp only
    split
    · exact .within .tooDeep
    · exact atom_converts
  | succ room ih =>
    unfold unary
    refine .peek fun t => ?_
    dsimp only
    split
    · next hunary =>
      refine .within (.skip_valueOf (List.contains_iff_mem.mp hunary) fun v hv => ?_)
      exact .bind (ih (depth + 1)) fun operand calls h => .pure (by simpa using .unary hv h)
    · exact atom_converts

section

variable {inner : Stage ε (Tree α)}
  (hinner : Converts p anywhere inner fun tree calls => Assembled p [tree] calls)

include hinner

/-- Between the arguments of a call stand commas, which only group. -/
theorem arguments_converts (rounds : Nat) :
    Converts p anywhere (p.arguments inner rounds)
      fun args calls => args ≠ [] ∧ Assembled p args calls := by
  induction rounds with
  | zero => exact .failIn rfl
  | succ rounds ih =>
    rw [arguments]
    refine .bind hinner fun first calls hfirst => .peek fun t => ?_
    split
    · next hcomma =>
      refine .skip_grouping (by simp [groups, hcomma]) (.bind ih fun others calls' hothers => ?_)
      exact .pure ⟨by simp, by simpa using hfirst.cons hothers.2⟩
    · exact .pure ⟨by simp, hfirst.cons .nil⟩

/-- The name of the function was seen before `call` is entered. -/
theorem call_converts {t : Token} (ht : p.namesFunction t = true) (depth : Nat) :
    Converts p (·.Shows t) (p.call inner depth) fun tree calls => Assembled p [tree] calls := by
  unfold call
  refine .within (.peek_again (.skip_valueOf ht fun v hv => ?_))
  refine .require (fun u hu => by simp [groups, hu]) (.pending fun rounds => ?_)
  refine .bind (arguments_converts hinner (rounds + 1)) fun args calls hargs => ?_
  refine .require (fun u hu => by simp [groups, hu]) (.pure ?_)
  simpa using .function hv hargs.1 hargs.2

/-- The parentheses around an expression only group. -/
theorem group_converts {t : Token} (ht : t.code = p.leftParen.code) (depth : Nat) :
    Converts p (·.Shows t) (p.group inner depth) fun tree calls => Assembled p [tree] calls := by
  unfold group
  refine .within (.skip_grouping (by simp [groups, ht]) (.bind hinner fun tree calls htree => ?_))
  exact .require (fun u hu => by simp [groups, hu]) (.pure (by simpa using htree))

theorem terminal_converts (room depth : Nat) :
    Converts p pre (p.terminal inner room depth) fun tree calls => Assembled p [tree] calls := by
  unfold terminal
  refine .peek fun t => ?_
  split
  · next hfunction => exact call_converts hinner hfunction depth
  · split
    · next hparen => exact group_converts hinner (by simpa using hparen) depth
    · exact unary_converts room depth

/-- **An operator is converted between its operands**: what was read to its left is what was
converted before it. -/
theorem climb_converts {rule : Rule} {ops : List Int} (hops : ops ∈ p.levels) (rounds : Nat)
    {left : Tree α} {earlier : List (Token × Role)} (hleft : Assembled p [left] earlier) :
    Converts p anywhere (p.climb rule ops inner rounds left)
      fun tree calls => Assembled p [tree] (earlier ++ calls) := by
  induction rounds generalizing left earlier with
  | zero => exact .failIn rfl
  | succ rounds ih =>
    rw [climb]
    refine .peek fun t => ?_
    split
    · next hop =>
      have hplays : p.Plays t .binaryOperator := List.any_eq_true.mpr ⟨ops, hops, hop⟩
      refine .skip_valueOf hplays fun v hv => .bind hinner fun right calls hright => ?_
      simpa using ih (.binary hv hleft hright)
    · exact .pure (by simpa using hleft)

/-- By induction on the levels that are left. -/
theorem level_converts (depth index : Nat) {levels : List (List Int)}
    (hlevels : ∀ ops ∈ levels, ops ∈ p.levels) :
    Converts p anywhere (p.level inner depth index levels)
      fun tree calls => Assembled p [tree] calls := by
  induction levels generalizing index with
  | nil => exact hinner
  | cons ops others ih =>
    rw [level]
    have hnext := ih (index + 1) fun o ho => hlevels o (List.mem_cons_of_mem ops ho)
    refine .within (.bind hnext fun left calls hleft => .pending fun rounds => ?_)
    exact climb_converts hnext (hlevels ops List.mem_cons_self) (rounds + 1) hleft

end

/-- **An expression is put together from the tokens it takes**, in their order. -/
theorem expression_converts (room depth : Nat) :
    Converts p anywhere (p.expression room depth)
      fun tree calls => Assembled p [tree] calls := by
  induction room generalizing depth with
  | zero => exact .tooDeep
  | succ room ih =>
    rw [expression]
    exact level_converts (terminal_converts (ih (depth + 1)) room (depth + 1)) (depth + 1) 0
      fun _ h => h

/-! ## 3. Whole parses -/

theorem parse_converts (p : Parser ε α) :
    Converts p anywhere p.parse fun tree calls => Assembled p [tree] calls := by
  intro k hk
  rw [exec_parse]
  exact expression_converts _ 0 k hk

/-- A token that groups or plays a role is not the end of the input. -/
theorem Unsigned.isEOF_eq_false (hp : p.Unsigned) {t : Token}
    (ht : p.groups t = true ∨ ∃ role, p.Plays t role) : t.isEOF = false := by
  refine Token.isEOF_of_code ?_
  rcases ht with hgroups | ⟨role, hplays⟩
  · simp only [groups, Bool.or_eq_true, beq_iff_eq] at hgroups
    obtain (hcode | hcode) | hcode := hgroups
    · exact hcode ▸ hp.leftParen
    · exact hcode ▸ hp.rightParen
    · exact hcode ▸ hp.comma
  · cases role with
    | atom => exact hp.identifiers _ hplays
    | unaryOperator => exact hp.unaries _ hplays
    | function =>
      simp only [Plays, namesFunction, Bool.and_eq_true, List.contains_iff_mem] at hplays
      exact hp.identifiers _ hplays.1
    | binaryOperator =>
      obtain ⟨i, hi⟩ := isOperator_iff.mp hplays
      exact hp.operator hi

/-- What is passed and converted is not the end of the input. -/
theorem Converted.isEOF_eq_false {c c' : Cursor} {used : List Token}
    {calls : List (Token × Role)} (h : p.Converted c used calls c') (hp : p.Unsigned) :
    ∀ t ∈ used, t.isEOF = false := by
  intro t ht
  refine hp.isEOF_eq_false ?_
  rcases h.left.mem_or ht with hkept | hleft
  · obtain ⟨call, hcall, rfl⟩ := List.mem_map.mp hkept
    exact .inr ⟨call.2, h.plays call hcall⟩
  · exact .inl hleft

/-- **A conversion that fails is the last one**, and its failure is the outcome. -/
theorem Accounts.of_error {k k' : Work ε} {r : Except (ParseError ε) (Tree α)}
    {Q : Tree α → List (Token × Role) → Prop} (h : p.Accounts k Q (r, k'))
    (hk : k.converted = []) {t : Token} {role : Role} {why : ε} (hmem : (t, role) ∈ k'.converted)
    (hwhy : p.convert t role = .error why) :
    r = .error (.convert t why) ∧ ∃ used earlier c₁, k'.converted.reverse = earlier ++ [(t, role)] ∧
      p.Converted k.cursor used earlier c₁ ∧ c₁.Passes [t] k'.cursor ∧ p.Plays t role := by
  have hfails : ¬ p.GivesValue (t, role) := by
    rintro ⟨v, hv⟩
    cases hwhy.symm.trans hv
  cases r with
  | ok tree =>
    obtain ⟨used, calls, hrecorded, hconverted, -⟩ := h
    rw [hrecorded, hk, List.append_nil, List.mem_reverse] at hmem
    exact absurd (hconverted.accepted _ hmem) hfails
  | error e =>
    obtain ⟨calls, hrecorded, hcalls⟩ := h
    rw [hrecorded, hk, List.append_nil, List.mem_reverse] at hmem
    rcases hcalls with ⟨haccepted, -⟩ | ⟨hconverted, hpasses, hplays, hwhy'⟩
    · exact absurd (haccepted _ hmem) hfails
    · rcases List.mem_append.mp hmem with hearlier | hlast
      · exact absurd (hconverted.accepted _ hearlier) hfails
      · obtain ⟨rfl, rfl⟩ := Prod.mk.inj (List.mem_singleton.mp hlast)
        obtain rfl := Except.error.inj (hwhy.symm.trans hwhy')
        refine ⟨rfl, _, _, _, ?_, hconverted, hpasses, hplays⟩
        rw [hrecorded, hk, List.append_nil, List.reverse_reverse]

/-- **A parse that reports a conversion made it**, and the token lay ahead of the cursor. -/
theorem of_convert_error (hp : p.Unsigned) {c : Cursor} (hc : Closes c.ahead.2) {t : Token}
    {why : ε} (h : (runOn c p.parse).result = .error (.convert t why)) :
    t ∈ c.ahead.1 ∧ ∃ role, p.Plays t role ∧ p.convert t role = .error why := by
  rw [runOn_eq] at h
  have hconverts := parse_converts p ⟨c, [], []⟩ trivial
  rcases hexec : exec p.parse ⟨c, [], []⟩ with ⟨r, k⟩
  rw [hexec] at hconverts h
  obtain rfl : r = .error (.convert t why) := h
  obtain ⟨calls, -, ⟨-, hother⟩ | hrefused⟩ := hconverts
  · cases hother
  · cases hrefused with
    | @last used _ c₁ _ _ role _ hconverted hpasses hplays hwhy =>
      have hall := (hconverted.passes.trans hpasses).ahead hc fun u hu => by
        rcases List.mem_append.mp hu with hu | hu
        · exact hconverted.isEOF_eq_false hp u hu
        · obtain rfl := List.mem_singleton.mp hu
          exact hp.isEOF_eq_false (.inr ⟨role, hplays⟩)
      exact ⟨by simp [hall], role, hplays, hwhy⟩

/-- Behind the expression nothing is converted. -/
theorem parse_of_parseAll {c : Cursor} {t : Token} {why : ε}
    (h : (runOn c p.parseAll).result = .error (.convert t why)) :
    (runOn c p.parse).result = .error (.convert t why) := by
  rw [runOn_eq, exec_parseAll] at h
  rw [runOn_eq]
  rcases hexec : exec p.parse ⟨c, [], []⟩ with ⟨r, k⟩
  rw [hexec] at h
  cases r with
  | error e => exact h
  | ok tree =>
    dsimp only at h
    rcases hlook : k.cursor.look 1 with ⟨r, c'⟩
    rw [hlook] at h
    cases r with
    | error f => cases h
    | ok e =>
      dsimp only at h
      split at h <;> cases h

/-- **Every token ends up in the tree once, and in its place.**  For every parser and every cursor:

* where the conversion keeps the token and the role, a parse that succeeds gives a tree each node of
  which has the children that its role takes, and which read in the order of the source is the
  sequence of conversions; that is the sequence of the tokens passed, from which nothing is left out
  but parentheses and commas;
* whatever the conversion is, if one fails then the parse fails with its reason and the token; it
  was the first to fail and the last to be made, and its token is the last one passed.

Where the source comes to an end, the tokens passed are those that lie ahead of the first cursor and
no longer ahead of the last one. -/
theorem tokens_once_in_order {p : Parser ε (Token × Role)} {q : Parser ε α} (hp : p.Unsigned)
    (hq : q.Unsigned) (hpair : ∀ t role, p.convert t role = .ok (t, role)) (c : Cursor) :
    (∀ tree, (runOn c p.parse).result = .ok tree →
      tree.Regular ∧ tree.reading = (runOn c p.parse).converted ∧
      ∃ used, c.Passes used (runOn c p.parse).cursor ∧
        (Closes c.ahead.2 → c.ahead = (used ++ (runOn c p.parse).cursor.ahead.1,
          (runOn c p.parse).cursor.ahead.2)) ∧
        LeavesOut p.groups used (tree.reading.map Prod.fst) ∧
        ((∀ t role, p.Plays t role → p.groups t = false) →
          tree.reading.map Prod.fst = used.filter (!p.groups ·))) ∧
    ∀ t role why, (t, role) ∈ (runOn c q.parse).converted → q.convert t role = .error why →
      (runOn c q.parse).result = .error (.convert t why) ∧
      ∃ used earlier, (runOn c q.parse).converted = earlier ++ [(t, role)] ∧
        (∀ call ∈ earlier, q.GivesValue call) ∧
        c.Passes (used ++ [t]) (runOn c q.parse).cursor ∧
        LeavesOut q.groups used (earlier.map Prod.fst) ∧
        (Closes c.ahead.2 → c.ahead = (used ++ [t] ++ (runOn c q.parse).cursor.ahead.1,
          (runOn c q.parse).cursor.ahead.2)) := by
  constructor
  · intro tree hresult
    rw [runOn_eq] at hresult ⊢
    have hconverts := parse_converts p ⟨c, [], []⟩ trivial
    rcases hexec : exec p.parse ⟨c, [], []⟩ with ⟨r, k⟩
    rw [hexec] at hconverts hresult
    dsimp only at hresult ⊢
    obtain rfl := hresult
    obtain ⟨used, calls, hrecorded, hconverted, hassembled⟩ := hconverts
    obtain ⟨hreading, hregular⟩ := hassembled.reading_eq hpair
    rw [Tree.readingAll, Tree.readingAll, List.append_nil] at hreading
    rw [hrecorded, List.append_nil, List.reverse_reverse, hreading]
    refine ⟨hregular tree List.mem_cons_self, rfl, used, hconverted.passes,
      fun hc => hconverted.passes.ahead hc (hconverted.isEOF_eq_false hp), hconverted.left,
      fun hseparate => hconverted.left.eq_filter fun t ht => ?_⟩
    obtain ⟨call, hcall, rfl⟩ := List.mem_map.mp ht
    exact hseparate _ _ (hconverted.plays call hcall)
  · intro t role why hmem hwhy
    rw [runOn_eq] at hmem ⊢
    have hconverts := parse_converts q ⟨c, [], []⟩ trivial
    rcases hexec : exec q.parse ⟨c, [], []⟩ with ⟨r, k⟩
    rw [hexec] at hconverts hmem
    dsimp only at hmem ⊢
    obtain ⟨hresult, used, earlier, c₁, hcalls, hconverted, hpasses, hplays⟩ :=
      hconverts.of_error rfl (List.mem_reverse.mp hmem) hwhy
    have hall := hconverted.passes.trans hpasses
    refine ⟨hresult, used, earlier, hcalls, hconverted.accepted, hall, hconverted.left,
      fun hc => hall.ahead hc fun u hu => ?_⟩
    rcases List.mem_append.mp hu with hu | hu
    · exact hconverted.isEOF_eq_false hq u hu
    · obtain rfl := List.mem_singleton.mp hu
      exact hq.isEOF_eq_false (.inr ⟨role, hplays⟩)

/-- A cursor before `-f - f(a)`. -/
def signedCursor : Cursor := .ofFeed (.ofSteps (signed.map .ok))

/-- The parser of signs, with tokens and roles for its values. -/
def signPairs : Parser String (Token × Role) where
  convert := fun t role => .ok (t, role)
  leftParen := signParser.leftParen
  rightParen := signParser.rightParen
  comma := signParser.comma
  levels := signParser.levels
  unaries := signParser.unaries
  identifiers := signParser.identifiers
  isFunction := signParser.isFunction
  limit := signParser.limit

/-- The parser of signs that has no function it can use. -/
def signRefusals : Parser String (Token × Role) :=
  { signPairs with convert := fun t role =>
      if role = .function then .error "no such function" else .ok (t, role) }

theorem signPairs_plays {t : Token} {role : Role} (h : signPairs.Plays t role) :
    signPairs.groups t = false := by
  have hcode : t.code = 2 ∨ t.code = 3 ∨ t.code = 4 ∨ t.code = 5 := by
    cases role with
    | atom => exact .inl (List.mem_singleton.mp h)
    | unaryOperator => exact .inr (.inr (.inl (List.mem_singleton.mp h)))
    | function =>
      have h : signPairs.namesFunction t = true := h
      simp only [namesFunction, Bool.and_eq_true, List.contains_iff_mem] at h
      exact .inl (List.mem_singleton.mp h.1)
    | binaryOperator =>
      obtain ⟨i, hi⟩ := isOperator_iff.mp h
      have := signParser_operator hi
      omega
  rcases hcode with h | h | h | h <;> simp [groups, signPairs, signParser, h]

/-- **Of `-f - f(a)` the five tokens that do not group are read back** in their order.  Where the
function is refused, nothing behind its name is taken. -/
theorem tokens_once_in_order_signs :
    signPairs.Unsigned ∧ signRefusals.Unsigned ∧
      (∀ t role, signPairs.convert t role = .ok (t, role)) ∧
      (∃ tree, (runOn signedCursor signPairs.parse).result = .ok tree ∧ tree.Regular ∧
        tree.reading.map Prod.fst
          = [sign 4 "-", sign 2 "f", sign 4 "-", sign 2 "f", sign 2 "a"]) ∧
      (sign 2 "f", Role.function) ∈ (runOn signedCursor signRefusals.parse).converted ∧
      (runOn signedCursor signRefusals.parse).result
        = .error (.convert (sign 2 "f") "no such function") := by
  have hp : signPairs.Unsigned := ⟨signParser_unsigned.leftParen, signParser_unsigned.rightParen,
    signParser_unsigned.comma, signParser_unsigned.operator, signParser_unsigned.unaries,
    signParser_unsigned.identifiers⟩
  have hq : signRefusals.Unsigned := ⟨hp.leftParen, hp.rightParen, hp.comma, hp.operator,
    hp.unaries, hp.identifiers⟩
  have hpair : ∀ t role, signPairs.convert t role = .ok (t, role) := fun _ _ => rfl
  obtain ⟨hsucceeds, hfails⟩ := tokens_once_in_order hp hq hpair signedCursor
  have hresult : ∃ tree, (runOn signedCursor signPairs.parse).result = .ok tree := ⟨_, by cbv⟩
  have hrest : (runOn signedCursor signPairs.parse).cursor.ahead.1 = [] := by cbv
  have hcalls : (runOn signedCursor signRefusals.parse).converted
      = [(sign 4 "-", .unaryOperator), (sign 2 "f", .atom), (sign 4 "-", .binaryOperator),
        (sign 2 "f", .function)] := by cbv
  have hrefused : (sign 2 "f", Role.function) ∈ (runOn signedCursor signRefusals.parse).converted :=
    by simp [hcalls]
  refine ⟨hp, hq, hpair, ?_, hrefused, (hfails _ _ _ hrefused rfl).1⟩
  obtain ⟨tree, htree⟩ := hresult
  obtain ⟨hregular, -, used, -, hahead, -, hfilter⟩ := hsucceeds tree htree
  refine ⟨tree, htree, hregular, ?_⟩
  have hused : signed = used := by
    have h := congrArg Prod.fst (hahead Feed.closes_eof)
    rw [hrest, List.append_nil] at h
    exact h
  rw [hfilter fun _ _ => signPairs_plays, ← hused]
  decide

end Parser

end Chain

end Formulary
