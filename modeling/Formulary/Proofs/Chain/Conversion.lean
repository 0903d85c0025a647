import Formulary.Proofs.Chain.Walk
import Formulary.Proofs.Told

/-!
# What a stage converts

A parse converts each token that it passes once, before it passes the next one, unless the token
only groups: a parenthesis or a comma.  And a conversion that fails is the last thing that it does.
This module says what that means for a stage, wherever it starts and whether or not it fails.

* `Cursor.Passes`: the tokens that are moved past between two states of a cursor.  No source is
  asked for here what it would still have said; where it comes to an end, `Passes.ahead` compares.
* `Parser.Accounts`: what the outcome of a stage says of its conversions.  It follows the stage also
  where it fails, because the failure may be that of a conversion.
* `Converts`: the statement about a stage, with one rule for each way to build a stage.

-/

namespace Formulary

/-! ## 1. What a cursor passes -/

namespace Cursor

open Feed (Closes)

/-- `c.Passes used c'`: by looks at the next token and moves past it, all of which succeed, the
cursor `c` has become `c'`, and `used` are the tokens it has moved past. -/
inductive Passes (c : Cursor) : List Token → Cursor → Prop
  | stay : Passes c [] c
  | look {used : List Token} {c₁ c₂ : Cursor} {t : Token} :
      Passes c used c₁ → c₁.look 1 = (.ok t, c₂) → Passes c used c₂
  | move {used : List Token} {c₁ c₂ : Cursor} {t : Token} :
      Passes c used c₁ → (c₁.look 1).1 = .ok t → c₁.consume = (.ok (), c₂) →
      Passes c (used ++ [t]) c₂

variable {c c₁ c₂ : Cursor} {t : Token}

/-- The token waits in front of the cursor. -/
def Shows (c : Cursor) (t : Token) : Prop := ∃ rest, c.buffer = t :: rest

theorem length_fetch {missing : Nat} (h : fetch missing c = (.ok (), c₁)) :
    c₁.buffer.length = c.buffer.length + missing := by
  induction missing generalizing c with
  | zero =>
    cases h
    rfl
  | succ missing ih =>
    rw [fetch] at h
    split at h
    · rw [ih h]
      simp only [List.length_append, List.length_singleton]
      omega
    · split at h
      · cases h
      · rw [ih h]
        simp only [List.length_append, List.length_singleton]
        omega

/-- **A token waits after a fill.** -/
theorem shows_of_fill (h : c.fill 1 = (.ok (), c₁)) : ∃ t, c₁.Shows t := by
  have hlength := length_fetch h
  exact List.exists_cons_of_length_pos (by omega)

theorem look_eq (c : Cursor) : c.look 1 = match c.fill 1 with
    | (.error f, c₁) => (.error f, c₁)
    | (.ok (), c₁) => (.ok (c₁.buffer.getD 0 .eof), c₁) := rfl

/-- What a look has shown waits. -/
theorem shows_of_look (h : c.look 1 = (.ok t, c₁)) : c₁.Shows t := by
  rw [look_eq] at h
  split at h
  · cases h
  next filled heq =>
    obtain ⟨u, rest, hbuffer⟩ := shows_of_fill heq
    rw [hbuffer] at h
    cases h
    exact ⟨rest, hbuffer⟩

theorem Shows.fill (h : c.Shows t) : c.fill 1 = (.ok (), c) := by
  obtain ⟨rest, hbuffer⟩ := h
  simp [Cursor.fill, hbuffer, fetch]

theorem Shows.look (h : c.Shows t) : c.look 1 = (.ok t, c) := by
  rw [look_eq, h.fill]
  obtain ⟨rest, hbuffer⟩ := h
  simp [hbuffer]

/-- A token that waits is consumed. -/
theorem Shows.consume (h : c.Shows t) : ∃ c₁, c.consume = (.ok (), c₁) := by
  obtain ⟨rest, hbuffer⟩ := h
  exact ⟨_, Follows.consume_of_buffer hbuffer⟩

/-- **A kind that is required is passed.** -/
theorem passes_of_expect {k : Kind} (h : c.expect k = (.ok t, c₁)) :
    t.code = k.code ∧ c.Passes [t] c₁ := by
  unfold expect at h
  split at h
  · cases h
  next u c₂ hlook =>
    split at h
    next hcode =>
      split at h
      · cases h
      next c₃ hconsume =>
        cases h
        refine ⟨by simpa using hcode, ?_⟩
        exact .move (.look .stay hlook) (by rw [(shows_of_look hlook).look]) hconsume
    · cases h

theorem Passes.trans {used used' : List Token} (h : c.Passes used c₁) (h' : c₁.Passes used' c₂) :
    c.Passes (used ++ used') c₂ := by
  induction h' with
  | stay => rwa [List.append_nil]
  | look _ hlook ih => exact .look ih hlook
  | move _ hlook hconsume ih =>
    rw [← List.append_assoc]
    exact .move ih hlook hconsume

/-- **What is passed is what lay ahead**, as long as it is not the end of the input. -/
theorem Passes.ahead {used : List Token} (h : c.Passes used c₁) (hc : Closes c.ahead.2)
    (hused : ∀ t ∈ used, t.isEOF = false) : c.ahead = (used ++ c₁.ahead.1, c₁.ahead.2) := by
  induction h with
  | stay => rfl
  | look h hlook ih =>
    rw [ih hused] at hc ⊢
    obtain ⟨c', hlook', hahead⟩ := look_one (Prod.eta _).symm hc
    rw [hlook'] at hlook
    obtain ⟨ht, rfl⟩ := Prod.mk.inj hlook
    rw [hahead _ ht]
  | @move used c₁ c₂ t h hlook hconsume ih =>
    have hopen := hused t (by simp)
    rw [ih fun u hu => hused u (by simp [hu])] at hc ⊢
    obtain ⟨c', hlook', -⟩ := look_one (Prod.eta c₁.ahead).symm hc
    rw [hlook'] at hlook
    rcases hw : c₁.ahead with ⟨w, ending⟩
    rw [hw] at hlook hc
    cases w with
    | nil => simp [hc t hlook] at hopen
    | cons u w =>
      obtain rfl := Except.ok.inj hlook
      obtain ⟨c'', hconsume', hahead⟩ := consume_cons hw hc
      rw [hconsume'] at hconsume
      obtain ⟨-, rfl⟩ := Prod.mk.inj hconsume
      simp [hahead]

end Cursor

/-! ## 2. Tokens that are left out -/

namespace Chain

variable {ε α β γ : Type}

/-- `LeavesOut left tokens kept`: from the tokens some for which `left` holds are left out, and the
others are kept, in their order. -/
inductive LeavesOut (left : Token → Bool) : List Token → List Token → Prop
  | nil : LeavesOut left [] []
  | keep {tokens kept : List Token} (t : Token) :
      LeavesOut left tokens kept → LeavesOut left (t :: tokens) (t :: kept)
  | leave {tokens kept : List Token} {t : Token} :
      left t = true → LeavesOut left tokens kept → LeavesOut left (t :: tokens) kept

namespace LeavesOut

variable {left : Token → Bool} {tokens tokens' kept kept' : List Token}

theorem append (h : LeavesOut left tokens kept) (h' : LeavesOut left tokens' kept') :
    LeavesOut left (tokens ++ tokens') (kept ++ kept') := by
  induction h with
  | nil => exact h'
  | keep t _ ih => exact ih.keep t
  | leave ht _ ih => exact ih.leave ht

/-- A token is kept or may be left out. -/
theorem mem_or (h : LeavesOut left tokens kept) {t : Token} (ht : t ∈ tokens) :
    t ∈ kept ∨ left t = true := by
  induction h with
  | nil => cases ht
  | keep u _ ih =>
    rcases List.mem_cons.mp ht with rfl | ht
    · exact .inl List.mem_cons_self
    · exact (ih ht).imp_left (List.mem_cons_of_mem u)
  | leave hu _ ih =>
    rcases List.mem_cons.mp ht with rfl | ht
    · exact .inr hu
    · exact ih ht

/-- **All that may be left out is left out** if nothing of it is kept. -/
theorem eq_filter (h : LeavesOut left tokens kept) (hkept : ∀ t ∈ kept, left t = false) :
    kept = tokens.filter (!left ·) := by
  induction h with
  | nil => rfl
  | keep t _ ih =>
    rw [List.filter_cons_of_pos (by simp [hkept t List.mem_cons_self]),
      ← ih fun u hu => hkept u (List.mem_cons_of_mem t hu)]
  | leave ht _ ih => rw [List.filter_cons_of_neg (by simp [ht]), ← ih hkept]

end LeavesOut

/-! ## 3. Conversions of a stage -/

/-- The error is that of a conversion. -/
def ParseError.ofConversion : ParseError ε → Bool
  | .convert _ _ => true
  | _ => false

namespace Parser

variable (p : Parser ε α)

/-- The token only groups: it is a parenthesis or a comma. -/
def groups (t : Token) : Bool :=
  t.code == p.leftParen.code || t.code == p.rightParen.code || t.code == p.comma.code

/-- The grammar has the role for the token. -/
def Plays (t : Token) : Role → Prop
  | .atom => t.code ∈ p.identifiers
  | .function => p.namesFunction t = true
  | .unaryOperator => t.code ∈ p.unaries
  | .binaryOperator => p.isOperator t.code = true

/-- The conversion gives a value. -/
def GivesValue (call : Token × Role) : Prop := ∃ v, p.convert call.1 call.2 = .ok v

/-- Between `c` and `c'` the tokens `used` are passed, and all of them but some that only group are
converted, each once and in their order, by `calls`. -/
structure Converted (c : Cursor) (used : List Token) (calls : List (Token × Role)) (c' : Cursor) :
    Prop where
  passes : c.Passes used c'
  left : LeavesOut p.groups used (calls.map Prod.fst)
  plays : ∀ call ∈ calls, p.Plays call.1 call.2
  accepted : ∀ call ∈ calls, p.GivesValue call

/-- `Refused p c calls e c'`: the last of `calls` is the conversion that fails with `e`, and its
token is the last one passed from `c` to `c'`. -/
inductive Refused (c : Cursor) : List (Token × Role) → ParseError ε → Cursor → Prop
  | last {used : List Token} {earlier : List (Token × Role)} {c₁ c' : Cursor} {t : Token}
      {role : Role} {why : ε} :
      p.Converted c used earlier c₁ → c₁.Passes [t] c' → p.Plays t role →
      p.convert t role = .error why → Refused c (earlier ++ [(t, role)]) (.convert t why) c'

variable {p} {c c₁ c₂ : Cursor}

namespace Converted

variable {used used' : List Token} {calls calls' : List (Token × Role)}

/-- Where nothing is passed, nothing is converted. -/
theorem of_passes_nil (h : c.Passes [] c₁) : p.Converted c [] [] c₁ :=
  ⟨h, .nil, by simp, by simp⟩

/-- A token that only groups is passed and not converted. -/
theorem of_groups {t : Token} (ht : p.groups t = true) (h : c.Passes [t] c₁) :
    p.Converted c [t] [] c₁ :=
  ⟨h, .leave ht .nil, by simp, by simp⟩

theorem trans (h : p.Converted c used calls c₁) (h' : p.Converted c₁ used' calls' c₂) :
    p.Converted c (used ++ used') (calls ++ calls') c₂ where
  passes := h.passes.trans h'.passes
  left := by
    rw [List.map_append]
    exact h.left.append h'.left
  plays := by
    intro call hcall
    exact (List.mem_append.mp hcall).elim (h.plays call) (h'.plays call)
  accepted := by
    intro call hcall
    exact (List.mem_append.mp hcall).elim (h.accepted call) (h'.accepted call)

end Converted

/-- What the outcome of a stage that started at `k` says of its conversions.  `Q` relates a value to
them.  Where the stage fails they have all given a value and the failure is another one, or the last
one is the failure. -/
def Accounts (p : Parser ε α) (k : Work ε) (Q : β → List (Token × Role) → Prop) :
    Except (ParseError ε) β × Work ε → Prop
  | (.ok b, k') => ∃ used calls, k'.converted = calls.reverse ++ k.converted ∧
      p.Converted k.cursor used calls k'.cursor ∧ Q b calls
  | (.error e, k') => ∃ calls, k'.converted = calls.reverse ++ k.converted ∧
      ((∀ call ∈ calls, p.GivesValue call) ∧ e.ofConversion = false ∨
        p.Refused k.cursor calls e k'.cursor)

/-- A failure before anything was converted. -/
theorem accounts_error {k k' : Work ε} {Q : β → List (Token × Role) → Prop} (e : ParseError ε)
    (h : k'.converted = k.converted) (he : e.ofConversion = false) :
    p.Accounts k Q (.error e, k') :=
  ⟨[], h, .inl ⟨by simp, he⟩⟩

/-- **What follows on conversions that gave values** is told together with them. -/
theorem Converted.continue {k : Work ε} (k' : Work ε) {used : List Token}
    {calls : List (Token × Role)} {Q : β → List (Token × Role) → Prop}
    {outcome : Except (ParseError ε) β × Work ε}
    (h : p.Converted k.cursor used calls k'.cursor)
    (hrecorded : k'.converted = calls.reverse ++ k.converted)
    (h' : p.Accounts k' (fun b calls' => Q b (calls ++ calls')) outcome) :
    p.Accounts k Q outcome := by
  rcases outcome with ⟨r, k''⟩
  have hall : ∀ calls' : List (Token × Role), k''.converted = calls'.reverse ++ k'.converted →
      k''.converted = (calls ++ calls').reverse ++ k.converted := fun calls' h => by
    rw [h, hrecorded, List.reverse_append, List.append_assoc]
  cases r with
  | ok b =>
    obtain ⟨used', calls', hrecorded', hconverted, hQ⟩ := h'
    exact ⟨used ++ used', calls ++ calls', hall calls' hrecorded', h.trans hconverted, hQ⟩
  | error e =>
    obtain ⟨calls', hrecorded', hcalls⟩ := h'
    refine ⟨calls ++ calls', hall calls' hrecorded', ?_⟩
    rcases hcalls with ⟨haccepted, he⟩ | ⟨hconverted, hpasses, hplays, hwhy⟩
    · refine .inl ⟨fun call hcall => ?_, he⟩
      exact (List.mem_append.mp hcall).elim (h.accepted call) (haccepted call)
    · rw [← List.append_assoc]
      exact .inr (.last (h.trans hconverted) hpasses hplays hwhy)

end Parser

/-- Wherever the cursor is as `pre` says, the stage converts the tokens that it passes, and stops if
a conversion fails. -/
def Converts (p : Parser ε α) (pre : Cursor → Prop) (stage : Stage ε β)
    (Q : β → List (Token × Role) → Prop) : Prop :=
  ∀ k : Work ε, pre k.cursor → p.Accounts k Q (exec stage k)

/-- Any cursor. -/
def anywhere (_ : Cursor) : Prop := True

namespace Converts

variable {p : Parser ε α} {pre : Cursor → Prop} {rule : Rule} {t : Token}
  {Q : β → List (Token × Role) → Prop} {Q' : γ → List (Token × Role) → Prop}

theorem pure {b : β} (h : Q b []) : Converts p pre (pure b : Stage ε β) Q :=
  fun _ _ => ⟨[], [], rfl, .of_passes_nil .stay, h⟩

theorem failIn {e : ParseError ε} (he : e.ofConversion = false) :
    Converts p pre (failIn rule e : Stage ε β) Q :=
  fun _ _ => Parser.accounts_error e rfl he

/-- **One stage after another** converts what the first one converts and then what the second one
does. -/
theorem bind {x : Stage ε β} {f : β → Stage ε γ} (hx : Converts p pre x Q)
    (hf : ∀ b calls, Q b calls →
      Converts p anywhere (f b) fun c calls' => Q' c (calls ++ calls')) :
    Converts p pre (x >>= f) Q' := by
  intro k hk
  rw [exec_bind]
  have h := hx k hk
  rcases hexec : exec x k with ⟨r, k'⟩
  rw [hexec] at h
  cases r with
  | error e => exact h
  | ok b =>
    obtain ⟨used, calls, hrecorded, hconverted, hQ⟩ := h
    exact hconverted.continue k' hrecorded (hf b calls hQ k' trivial)

/-- Events are no conversions. -/
theorem within {depth : Nat} {body : Stage ε β} (h : Converts p pre body Q) :
    Converts p pre (Chain.within rule depth body) Q := by
  intro k hk
  rw [exec_within]
  have h := h { k with events := .enter rule depth :: k.events } hk
  rcases hexec : exec body { k with events := .enter rule depth :: k.events } with ⟨r, k'⟩
  rw [hexec] at h
  cases r with
  | error e => exact h
  | ok b => exact h

theorem pending {f : Nat → Stage ε β} (hf : ∀ n, Converts p pre (f n) Q) :
    Converts p pre (Chain.pending >>= f) Q := by
  intro k hk
  rw [exec_bind, exec_pending]
  exact hf k.cursor.pending k hk

/-- The token seen is the one that waits afterwards. -/
theorem peek {f : Token → Stage ε β} (hf : ∀ t, Converts p (·.Shows t) (f t) Q) :
    Converts p pre (Chain.peek rule >>= f) Q := by
  intro k _
  rw [exec_bind, Chain.peek, exec_onCursor]
  rcases hlook : k.cursor.look 1 with ⟨r, c⟩
  cases r with
  | error e => exact Parser.accounts_error _ rfl rfl
  | ok t =>
    have hconverted : p.Converted k.cursor [] [] c := .of_passes_nil (.look .stay hlook)
    exact hconverted.continue { k with cursor := c } rfl (hf t _ (Cursor.shows_of_look hlook))

/-- A token that waits is seen again. -/
theorem peek_again {f : Token → Stage ε β} (hf : Converts p (·.Shows t) (f t) Q) :
    Converts p (·.Shows t) (Chain.peek rule >>= f) Q := by
  intro k hk
  rw [exec_bind, Chain.peek, exec_onCursor, hk.look]
  exact hf k hk

/-- A token that waits is passed. -/
theorem exec_skip (rule : Rule) {k : Work ε} (hk : k.cursor.Shows t) :
    ∃ c, exec (Chain.skip rule) k = (.ok (), { k with cursor := c }) ∧ k.cursor.Passes [t] c := by
  obtain ⟨c, hconsume⟩ := hk.consume
  refine ⟨c, ?_, .move .stay (by rw [hk.look]) hconsume⟩
  rw [Chain.skip, exec_onCursor, hconsume]

theorem skip_grouping {f : Unit → Stage ε β} (ht : p.groups t = true)
    (hf : Converts p anywhere (f ()) Q) :
    Converts p (·.Shows t) (Chain.skip rule >>= f) Q := by
  intro k hk
  obtain ⟨c, hskip, hpasses⟩ := exec_skip rule hk
  have hconverted : p.Converted k.cursor [t] [] c := .of_groups ht hpasses
  rw [exec_bind, hskip]
  exact hconverted.continue { k with cursor := c } rfl (hf _ trivial)

/-- **A token that is passed and converted** is followed by nothing if the conversion fails. -/
theorem skip_valueOf {role : Role} {f : α → Stage ε β} (hplays : p.Plays t role)
    (hf : ∀ v, p.convert t role = .ok v →
      Converts p anywhere (f v) fun b calls => Q b ((t, role) :: calls)) :
    Converts p (·.Shows t) (Chain.skip rule >>= fun _ => p.valueOf rule t role >>= f) Q := by
  intro k hk
  obtain ⟨c, hskip, hpasses⟩ := exec_skip rule hk
  rw [exec_bind, hskip]
  dsimp only
  rw [exec_bind, exec_valueOf]
  cases hconvert : p.convert t role with
  | error why =>
    exact ⟨[(t, role)], rfl, .inr (.last (.of_passes_nil .stay) hpasses hplays hconvert)⟩
  | ok v =>
    have hconverted : p.Converted k.cursor [t] [(t, role)] c :=
      ⟨hpasses, .keep t .nil, by simpa using hplays, by simpa using ⟨v, hconvert⟩⟩
    exact hconverted.continue { k with cursor := c, converted := (t, role) :: k.converted } rfl
      (hf v hconvert _ trivial)

/-- A token that is required only groups. -/
theorem require {kind : Kind} {f : Unit → Stage ε β}
    (hkind : ∀ t : Token, t.code = kind.code → p.groups t = true)
    (hf : Converts p anywhere (f ()) Q) :
    Converts p pre (Chain.require rule kind >>= f) Q := by
  intro k _
  rw [exec_bind, exec_require]
  rcases hexpect : k.cursor.expect kind with ⟨r, c⟩
  cases r with
  | error e => exact Parser.accounts_error _ rfl rfl
  | ok t =>
    obtain ⟨hcode, hpasses⟩ := Cursor.passes_of_expect hexpect
    have hconverted : p.Converted k.cursor [t] [] c := .of_groups (hkind t hcode) hpasses
    exact hconverted.continue { k with cursor := c } rfl (hf _ trivial)

theorem tooDeep : Converts p pre (p.tooDeep rule : Stage ε β) Q := by
  intro k _
  unfold Parser.tooDeep
  split
  · exact Parser.accounts_error _ rfl rfl
  · rw [exec_bind, peekPosition, exec_bind, exec_get]
    dsimp only
    rcases k.cursor.look 1 with ⟨r, c⟩
    cases r <;> exact Parser.accounts_error _ rfl rfl

end Converts

end Chain

end Formulary
