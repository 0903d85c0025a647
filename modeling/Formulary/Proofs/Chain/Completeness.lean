import Formulary.Proofs.Chain.Soundness

/-!
# What is in the grammar is read by the chain

The converse of soundness: tokens that the grammar derives a tree from are read as that tree, as
long as the room for nesting is at least the nesting of the derivation
(`Derives.expression_consumes`).

Two choices of the parser have to be the right ones.  Before an operand it tells calls, groups,
unary operators and identifiers apart by one token; after an operand it tells operators, commas and
closing parentheses apart (`Parser.Separated`).  Operators that are listed in several levels do no
harm when the derivation uses them in the innermost one.

The grammar is left recursive and the parser loops.  The two are brought together by the statement
about a level (`Completes`): whatever the loop makes of the tokens `w'` when it starts from the tree
`t`, the whole level makes of `w ++ w'`, if `t` is derived from `w`.
-/

namespace Formulary.Chain

open Feed (Closes upcoming)

variable {ε α : Type}

/-! ## 1. Codes kept apart -/

/-- Where the parser chooses by a code, the code has one meaning. -/
structure Parser.Separated (p : Parser ε α) : Prop where
  rightParen : ∀ i, ¬ p.operator i p.rightParen.code
  comma : ∀ i, ¬ p.operator i p.comma.code
  comma_ne : p.comma.code ≠ p.rightParen.code
  leftParen_unaries : p.leftParen.code ∉ p.unaries
  leftParen_identifiers : p.leftParen.code ∉ p.identifiers
  unaries_identifiers : ∀ code ∈ p.unaries, code ∉ p.identifiers

namespace Parser

variable (p : Parser ε α)

/-- What stands behind the last level, with `room` for nesting. -/
def behind (room depth : Nat) : Stage ε (Tree α) :=
  p.terminal (p.expression room depth) room depth

/-- The level with the index `i` and those behind it. -/
def chainFrom (room depth i : Nat) : Stage ε (Tree α) :=
  p.level (p.behind room depth) depth i (p.levels.drop i)

variable {p}

/-- An expression is the chain of all levels. -/
theorem expression_succ (room depth : Nat) :
    p.expression (room + 1) depth = p.chainFrom room (depth + 1) 0 := rfl

theorem chainFrom_length (room depth : Nat) :
    p.chainFrom room depth p.levels.length = p.behind room depth := by
  unfold chainFrom
  rw [List.drop_length]
  rfl

/-- A level is an operand of the next one and a loop over its own operators. -/
theorem chainFrom_level {i : Nat} {ops : List Int} (h : p.levels[i]? = some ops)
    (room depth : Nat) :
    p.chainFrom room depth i = within (.level i) depth (do
      let left ← p.chainFrom room depth (i + 1)
      let rounds ← pending
      p.climb (.level i) ops (p.chainFrom room depth (i + 1)) (rounds + 1) left) := by
  obtain ⟨hlt, hget⟩ := List.getElem?_eq_some_iff.mp h
  unfold chainFrom
  rw [List.drop_eq_getElem_cons hlt, hget]
  rfl

/-- The next token can be read and is an operator of no level from `i` on. -/
def EndsAt (p : Parser ε α) (i : Nat) (next : Step) : Prop :=
  ∃ t, next = .ok t ∧ ∀ j, i ≤ j → ¬ p.operator j t.code

theorem EndsAt.mono {i j : Nat} {next : Step} (h : p.EndsAt i next) (hij : i ≤ j) :
    p.EndsAt j next := by
  obtain ⟨t, ht, hop⟩ := h
  exact ⟨t, ht, fun k hk => hop k (by omega)⟩

/-- A token whose code is an operator nowhere ends an expression: a closing parenthesis, a comma. -/
theorem endsAt_of_code {i : Nat} {t : Token} {code : Int} (ht : t.code = code)
    (hcode : ∀ j, ¬ p.operator j code) : p.EndsAt i (.ok t) :=
  ⟨t, rfl, fun j _ hop => hcode j (ht ▸ hop)⟩

end Parser

/-! ## 2. Steps of the parser on a given input -/

namespace Consumes

variable {p : Parser ε α} {ending : Step} {w w' rest : List Token} {t b : Tree α}

theorem atom {a : Token} {v : α} (he : Closes ending) (ha : a.code ∈ p.identifiers)
    (hv : p.convert a .atom = .ok v) : Consumes p.atom [a] rest ending (.leaf v) := by
  unfold Parser.atom
  refine Consumes.peek he (t := a) rfl ?_
  rw [if_pos (by simpa using ha)]
  exact .skip he (.valueOf hv (.pure _))

theorem unary_atom {a : Token} {v : α} {room depth : Nat} (he : Closes ending)
    (ha : a.code ∈ p.identifiers) (hun : a.code ∉ p.unaries) (hv : p.convert a .atom = .ok v) :
    Consumes (p.unary room depth) [a] rest ending (.leaf v) := by
  unfold Parser.unary
  refine Consumes.peek he (t := a) rfl ?_
  rw [if_neg (by simpa using hun)]
  exact .atom he ha hv

theorem unary_operator {o : Token} {v : α} {room depth : Nat} (he : Closes ending)
    (ho : o.code ∈ p.unaries) (hv : p.convert o .unaryOperator = .ok v)
    (hw : Consumes (p.unary room (depth + 1)) w rest ending t) :
    Consumes (p.unary (room + 1) depth) (o :: w) rest ending (.node v [t]) := by
  rw [Parser.unary]
  refine Consumes.peek he (t := o) rfl ?_
  rw [if_pos (by simpa using ho)]
  exact .within (.skip he (.valueOf hv (hw.bind_nil (.pure _))))

/-- The loop of a level stops at a token that is none of its operators. -/
theorem climb_stop {rule : Rule} {ops : List Int} {operand : Stage ε (Tree α)} {rounds : Nat}
    {next : Token} (he : Closes ending) (hnext : upcoming rest ending = .ok next)
    (hmem : next.code ∉ ops) :
    Consumes (p.climb rule ops operand (rounds + 1) t) [] rest ending t := by
  rw [Parser.climb]
  refine Consumes.peek he (t := next) hnext ?_
  rw [if_neg (by simpa using hmem)]
  exact .pure t

/-- One round of the loop of a level. -/
theorem climb_step {rule : Rule} {ops : List Int} {operand : Stage ε (Tree α)} {rounds : Nat}
    {o : Token} {v : α} {right : Tree α} (he : Closes ending) (ho : o.code ∈ ops)
    (hv : p.convert o .binaryOperator = .ok v)
    (hright : Consumes operand w (w' ++ rest) ending right)
    (hrest : Consumes (p.climb rule ops operand rounds (.node v [t, right])) w' rest ending b) :
    Consumes (p.climb rule ops operand (rounds + 1) t) (o :: (w ++ w')) rest ending b := by
  rw [Parser.climb]
  refine Consumes.peek he (t := o) rfl ?_
  rw [if_pos (by simpa using ho)]
  exact .skip he (.valueOf hv (hright.bind hrest))

/-- A whole level: its first operand, then its loop. -/
theorem chainFrom_level {i room depth : Nat} {ops : List Int} (hops : p.levels[i]? = some ops)
    (hleft : Consumes (p.chainFrom room depth (i + 1)) w (w' ++ rest) ending t)
    (hloop : ∀ rounds, (w' ++ rest).length < rounds →
      Consumes (p.climb (.level i) ops (p.chainFrom room depth (i + 1)) rounds t) w' rest ending
        b) :
    Consumes (p.chainFrom room depth i) (w ++ w') rest ending b := by
  rw [Parser.chainFrom_level hops]
  exact .within (hleft.bind (.pending fun n hn => hloop (n + 1) (by omega)))

/-- The last argument of a call. -/
theorem arguments_last {argument : Stage ε (Tree α)} {rounds : Nat} (closing : Token)
    (he : Closes ending) (hnext : upcoming rest ending = .ok closing)
    (hclosing : closing.code ≠ p.comma.code) (hw : Consumes argument w rest ending t) :
    Consumes (p.arguments argument (rounds + 1)) w rest ending [t] := by
  rw [Parser.arguments]
  refine hw.bind_nil (Consumes.peek he (t := closing) hnext ?_)
  rw [if_neg (by simpa using hclosing)]
  exact .pure _

/-- An argument of a call before a comma. -/
theorem arguments_more {argument : Stage ε (Tree α)} {rounds : Nat} {comma : Token}
    {ts : List (Tree α)} (he : Closes ending) (hcomma : comma.code = p.comma.code)
    (hw : Consumes argument w (comma :: w' ++ rest) ending t)
    (hrest : Consumes (p.arguments argument rounds) w' rest ending ts) :
    Consumes (p.arguments argument (rounds + 1)) (w ++ comma :: w') rest ending (t :: ts) := by
  rw [Parser.arguments]
  refine hw.bind ?_
  refine Consumes.peek he (t := comma) rfl ?_
  rw [if_pos (by simpa using hcomma)]
  exact .skip he (hrest.bind_nil (.pure _))

/-- A call, seen by its name. -/
theorem behind_call {room depth : Nat} {f opening closing : Token} {v : α} {args : List (Tree α)}
    (he : Closes ending) (hid : f.code ∈ p.identifiers) (hfun : p.isFunction f.value = true)
    (hv : p.convert f .function = .ok v) (hopening : opening.code = p.leftParen.code)
    (hclosing : closing.code = p.rightParen.code)
    (hargs : ∀ rounds, (w ++ closing :: rest).length < rounds →
      Consumes (p.arguments (p.expression room depth) rounds) w (closing :: rest) ending args) :
    Consumes (p.behind room depth) (f :: opening :: (w ++ [closing])) rest ending
      (.node v args) := by
  unfold Parser.behind Parser.terminal
  refine Consumes.peek he (t := f) rfl ?_
  rw [if_pos (by simp [hid, hfun])]
  unfold Parser.call
  refine .within (Consumes.peek he (t := f) rfl ?_)
  refine .skip he (.valueOf hv (.require he hopening ?_))
  refine .pending fun n hn => ?_
  simp only [List.append_assoc, List.singleton_append] at hn
  exact (hargs (n + 1) (by omega)).bind (.require he hclosing (.pure _))

/-- A group, seen by its parenthesis. -/
theorem behind_group {room depth : Nat} {opening closing : Token} (he : Closes ending)
    (hp : p.Separated) (hopening : opening.code = p.leftParen.code)
    (hclosing : closing.code = p.rightParen.code)
    (hw : Consumes (p.expression room depth) w (closing :: rest) ending t) :
    Consumes (p.behind room depth) (opening :: (w ++ [closing])) rest ending t := by
  unfold Parser.behind Parser.terminal
  refine Consumes.peek he (t := opening) rfl ?_
  rw [if_neg (by simp [hopening, hp.leftParen_identifiers]), if_pos (by simpa using hopening)]
  unfold Parser.group
  exact .within (.skip he (hw.bind (.require he hclosing (.pure _))))

/-- An operand, seen by a token that starts neither a call nor a group. -/
theorem behind_unary {room depth : Nat} (first : Token) (he : Closes ending)
    (hnext : upcoming (w ++ rest) ending = .ok first)
    (hcall : first.code ∈ p.identifiers → p.isFunction first.value = false)
    (hparen : first.code ≠ p.leftParen.code) (hw : Consumes (p.unary room depth) w rest ending t) :
    Consumes (p.behind room depth) w rest ending t := by
  unfold Parser.behind Parser.terminal
  refine Consumes.peek he (t := first) hnext ?_
  rw [if_neg (by simpa using hcall), if_neg (by simpa using hparen)]
  exact hw

end Consumes

/-! ## 3. Derivations are read -/

/-- What the parser makes of derived tokens, form by form.  The statement about a level carries the
loop of that level: see the introduction. -/
def Completes (p : Parser ε α) (ending : Step) : Form → Nat → List Token → List (Tree α) → Prop
  | .level i, n, w, ts => ∀ t, ts = [t] → ∀ room depth, n ≤ room + 1 →
      (∀ rest, p.EndsAt i (upcoming rest ending) →
        Consumes (p.chainFrom room depth i) w rest ending t) ∧
      ∀ ops, p.levels[i]? = some ops →
      ∀ w' rest b, p.EndsAt (i + 1) (upcoming (w' ++ rest) ending) →
        (∀ rounds, (w' ++ rest).length < rounds →
          Consumes (p.climb (.level i) ops (p.chainFrom room depth (i + 1)) rounds t)
            w' rest ending b) →
        Consumes (p.chainFrom room depth i) (w ++ w') rest ending b
  | .operand, n, w, ts => ∀ t, ts = [t] → ∀ room depth, n ≤ room + 1 → ∀ rest,
      Consumes (p.unary room depth) w rest ending t
  | .arguments, n, w, ts => ∀ room depth, n ≤ room → ∀ closing rest,
      closing.code = p.rightParen.code → ∀ rounds, (w ++ closing :: rest).length < rounds →
        Consumes (p.arguments (p.expression room depth) rounds) w (closing :: rest) ending ts

namespace Completes

variable {p : Parser ε α} {ending : Step} {n : Nat} {w : List Token} {t : Tree α}

/-- An expression is read where the room is at least its nesting. -/
theorem expression (h : Completes p ending (.level 0) n w [t]) (hn : 0 < n) {room depth : Nat}
    (hroom : n ≤ room) {rest : List Token} (hstop : p.EndsAt 0 (upcoming rest ending)) :
    Consumes (p.expression room depth) w rest ending t := by
  obtain ⟨room, rfl⟩ : ∃ r, room = r + 1 := ⟨room - 1, by omega⟩
  rw [Parser.expression_succ]
  exact (h t rfl room (depth + 1) hroom).1 rest hstop

/-- What is read behind the last level is read as an expression of that level. -/
theorem of_behind (h : ∀ room depth, n ≤ room + 1 → ∀ rest,
    Consumes (p.behind room depth) w rest ending t) :
    Completes p ending (.level p.levels.length) n w [t] := by
  intro t' ht room depth hroom
  obtain rfl : t = t' := by simpa using ht
  refine ⟨fun rest _ => ?_, fun ops hops => ?_⟩
  · rw [Parser.chainFrom_length]
    exact h room depth hroom rest
  · simp at hops

/-- A level is read to its end as soon as it is read up to its loop: the loop stops at once. -/
theorem of_loop {i : Nat} (hi : i < p.levels.length) (he : Closes ending)
    (hopen : ∀ room depth, n ≤ room + 1 → ∀ ops, p.levels[i]? = some ops → ∀ w' rest b,
      p.EndsAt (i + 1) (upcoming (w' ++ rest) ending) →
      (∀ rounds, (w' ++ rest).length < rounds →
        Consumes (p.climb (.level i) ops (p.chainFrom room depth (i + 1)) rounds t) w' rest ending
          b) →
      Consumes (p.chainFrom room depth i) (w ++ w') rest ending b) :
    Completes p ending (.level i) n w [t] := by
  intro t' ht room depth hroom
  obtain rfl : t = t' := by simpa using ht
  refine ⟨fun rest hstop => ?_, hopen room depth hroom⟩
  have hops : p.levels[i]? = some p.levels[i] := List.getElem?_eq_getElem hi
  have h := hopen room depth hroom _ hops [] rest t (hstop.mono (by omega)) ?_
  · rwa [List.append_nil] at h
  · intro rounds hrounds
    obtain ⟨rounds, rfl⟩ : ∃ r, rounds = r + 1 := ⟨rounds - 1, by omega⟩
    obtain ⟨next, hnext, hop⟩ := hstop
    exact .climb_stop he hnext fun hmem => hop i (Nat.le_refl _) ⟨_, hops, hmem⟩

end Completes

/-- **Every derivation is read**, by induction on it.  The operators are those of the innermost
levels, and the codes are kept apart. -/
theorem Derives.completes {p : Parser ε α} (hp : p.Separated) {ending : Step} (he : Closes ending)
    {form : Form} {n : Nat} {w : List Token} {ts : List (Tree α)}
    (h : Derives p p.innermost form n w ts) : Completes p ending form n w ts := by
  induction h with
  | @tighter i n w t hi h ih =>
    refine .of_loop hi he fun room depth hroom ops hops w' rest b hstop hloop => ?_
    exact .chainFrom_level hops ((ih t rfl room depth hroom).1 _ hstop) hloop
  | @binary i m n u w o v left right ho hv hl hr ihl ihr =>
    refine .of_loop ho.1.lt he fun room depth hroom ops hops w' rest b hstop hloop => ?_
    have hmem : o.code ∈ ops := by
      obtain ⟨ops', hops', hmem⟩ := ho.1
      obtain rfl := Option.some.inj (hops.symm.trans hops')
      exact hmem
    -- the level reads the left side; its loop, started from there, takes the operator
    have hleft := (ihl left rfl room depth (by omega)).2 ops hops (o :: (w ++ w')) rest b
      ⟨o, rfl, fun j hj => ho.2 j hj⟩ ?_
    · simpa using hleft
    · intro rounds hrounds
      obtain ⟨rounds, rfl⟩ : ∃ r, rounds = r + 1 := ⟨rounds - 1, by omega⟩
      refine .climb_step he hmem hv ((ihr right rfl room depth (by omega)).1 _ hstop) ?_
      refine hloop rounds ?_
      simp only [List.cons_append, List.length_cons, List.length_append] at hrounds ⊢
      omega
  | @call n f opening closing w v args hid hfun hv hopening hclosing h ih =>
    refine .of_behind fun room depth hroom rest => ?_
    exact .behind_call he hid hfun hv hopening hclosing
      (ih room depth (by omega) closing rest hclosing)
  | @group n opening closing w t hopening hclosing h ih =>
    refine .of_behind fun room depth hroom rest => ?_
    exact .behind_group he hp hopening hclosing
      (ih.expression h.nesting_pos (by omega) (Parser.endsAt_of_code hclosing hp.rightParen))
  | @operand n w t h hfun ih =>
    refine .of_behind fun room depth hroom rest => ?_
    have hread := ih t rfl room depth hroom rest
    obtain ⟨a, rfl, hid⟩ | ⟨o, w', rfl, -, ho⟩ := h.operand_cases
    · exact .behind_unary a he rfl (fun _ => hfun a rfl)
        (fun hparen => hp.leftParen_identifiers (hparen ▸ hid)) hread
    · exact .behind_unary o he rfl (fun hid => absurd hid (hp.unaries_identifiers _ ho))
        (fun hparen => hp.leftParen_unaries (hparen ▸ ho)) hread
  | @unary n o w v t ho hv h ih =>
    intro t' ht room depth hroom rest
    obtain rfl : Tree.node v [t] = t' := by simpa using ht
    obtain ⟨room, rfl⟩ : ∃ r, room = r + 1 := ⟨room - 1, by have := h.nesting_pos; omega⟩
    exact .unary_operator he ho hv (ih t rfl room (depth + 1) (by omega) rest)
  | @atom a v ha hv =>
    intro t' ht room depth hroom rest
    obtain rfl : Tree.leaf v = t' := by simpa using ht
    exact .unary_atom he ha (fun hun => hp.unaries_identifiers _ hun ha) hv
  | @last n w t h ih =>
    intro room depth hroom closing rest hclosing rounds hrounds
    obtain ⟨rounds, rfl⟩ : ∃ r, rounds = r + 1 := ⟨rounds - 1, by omega⟩
    refine .arguments_last closing he rfl ?_ ?_
    · rw [hclosing]
      exact hp.comma_ne.symm
    · exact ih.expression h.nesting_pos hroom (Parser.endsAt_of_code hclosing hp.rightParen)
  | @more m n u w comma t ts hcomma hu hw ihu ihw =>
    intro room depth hroom closing rest hclosing rounds hrounds
    obtain ⟨rounds, rfl⟩ : ∃ r, rounds = r + 1 := ⟨rounds - 1, by omega⟩
    refine .arguments_more he hcomma ?_ (ihw room depth (by omega) closing rest hclosing rounds ?_)
    · exact ihu.expression hu.nesting_pos (by omega) (Parser.endsAt_of_code hcomma hp.comma)
    · simp only [List.append_assoc, List.cons_append, List.length_append, List.length_cons]
        at hrounds ⊢
      omega

end Formulary.Chain
