import Formulary.Explorer
import Formulary.Arith.Profile
import Formulary.Text.Distance

/-!
# What the explorer shows

Tree, value and failure are always those of the text in the field (`Explorer.shows_current_text`):
after any messages they are what an explorer shows that is started with that text.

One message either leaves the explorer alone or looks at the field again, so the invariant is that
the finding is that of the text (`Explorer.Fresh`).  Starting anew puts the text into a new field,
and for this one thing is relied on of the kind of field, whatever else it does: a text that stands
in a field is taken by a field as it is (`TextField.Lawful`).

1. Kinds of fields.
2. What is found for a text.
3. One message, and many.
-/

namespace Formulary

open Arith (Dialect)

/-! ## 1. Fields -/

/-- A text that stands in a field is put into a field unchanged. -/
def TextField.Lawful (k : TextField) : Prop :=
  ∀ field field' : k.State, k.text (k.put field' (k.text field)) = k.text field

namespace Line

theorem taken_of_held {text : String} (h : Held text) : taken text = text := by
  have hchars : ∀ cs : List Char, (∀ c ∈ cs, chars c = [c]) → cs.flatMap chars = cs := by
    intro cs hcs
    induction cs with
    | nil => rfl
    | cons c cs ih =>
      rw [List.flatMap_cons, hcs c (by simp), ih fun d hd => hcs d (by simp [hd])]
      rfl
  rw [taken, hchars _ h, String.ofList_toList]

end Line

/-- **Lines keep the text of a line.** -/
theorem TextField.lawful_line : TextField.line.Lawful :=
  fun field _ => Line.taken_of_held field.held

/-! ## 2. What is found -/

namespace Finding

variable {similar : Text.Similarity} {d : Dialect} {env : Environment Float} {text : String}

/-- **A failure is found exactly for a text that is not blank and no formula.** -/
theorem failure_ofText_eq_some {e : Arith.FormulaError} :
    (ofText similar d env text).failure = some e ↔
      Text.trim text ≠ "" ∧ d.parse (.ofString (Text.trim text)) = .error e := by
  unfold ofText
  simp only [String.isEmpty_iff]
  split
  next hempty => simp [nothing, hempty]
  next hne =>
    split
    next herror => simp [hne, herror]
    next hok => simp [hok]

/-- **With a failure neither a tree nor a value is found.** -/
theorem ofText_of_failure (h : (ofText similar d env text).failure.isSome = true) :
    (ofText similar d env text).tree = "" ∧ (ofText similar d env text).value = "" := by
  obtain ⟨e, he⟩ := Option.isSome_iff_exists.mp h
  obtain ⟨hne, hparse⟩ := failure_ofText_eq_some.mp he
  simp [ofText, hne, hparse]

end Finding

/-! ## 3. Messages -/

namespace Explorer

variable {k : TextField} {similar : Text.Similarity} {d : Dialect} {env : Environment Float}
  {x : Explorer k}

/-- The explorer shows what is found for the text in its field, in the environment `env`. -/
structure Fresh (similar : Text.Similarity) (d : Dialect) (env : Environment Float)
    (x : Explorer k) : Prop where
  similar_eq : x.similar = similar
  dialect_eq : x.dialect = d
  env_eq : x.env = env
  finding_eq : x.finding = .ofText similar d env x.input

/-- Looking at the field again makes up for whatever was shown before. -/
theorem fresh_refresh (hsimilar : x.similar = similar) (hdialect : x.dialect = d)
    (henv : x.env = env) : Fresh similar d env (refresh x) where
  similar_eq := by simpa only [refresh] using hsimilar
  dialect_eq := by simpa only [refresh] using hdialect
  env_eq := by simpa only [refresh] using henv
  finding_eq := by simp only [refresh, hsimilar, hdialect, henv, input]

theorem fresh_start (text : String) : Fresh similar d env (start k similar d env text) :=
  fresh_refresh rfl rfl rfl

/-- **A message keeps it so.** -/
theorem Fresh.update (h : Fresh similar d env x) (m : Happening) :
    Fresh similar d env (x.update m) := by
  cases m with
  | quit => exact h
  | typed text => exact fresh_refresh h.similar_eq h.dialect_eq h.env_eq
  | backspace => exact fresh_refresh h.similar_eq h.dialect_eq h.env_eq
  | resized width => exact fresh_refresh h.similar_eq h.dialect_eq h.env_eq

/-- **Messages keep it so**, one after another. -/
theorem Fresh.run (h : Fresh similar d env x) (messages : List Happening) :
    Fresh similar d env (messages.foldl Explorer.update x) := by
  induction messages generalizing x with
  | nil => exact h
  | cons m messages ih => exact ih (h.update m)

/-- An explorer that is started with the text in the field shows the same. -/
theorem Fresh.start_finding (hk : k.Lawful) (h : Fresh similar d env x) :
    (start k similar d env x.input).finding = x.finding := by
  have hinput : (start k similar d env x.input).input = x.input := hk x.field k.blank
  rw [(fresh_start x.input).finding_eq, hinput, h.finding_eq]

/-- **The explorer never shows what belongs to an earlier text.**  Whatever messages came, it shows
what an explorer shows that is started with the text now in the field.  A failure is shown exactly
if that text is not blank and no formula, and then neither a tree nor a value is.  The environment
is the one it was started with. -/
theorem shows_current_text {k : TextField} (hk : k.Lawful) (similar : Text.Similarity) (d : Dialect)
    (env : Environment Float) (text : String) (messages : List Happening) :
    let x := messages.foldl update (start k similar d env text)
    x.finding = (start k similar d env x.input).finding ∧
      (∀ e, x.finding.failure = some e ↔
        Text.trim x.input ≠ "" ∧ d.parse (.ofString (Text.trim x.input)) = .error e) ∧
      (x.finding.failure.isSome = true → x.finding.tree = "" ∧ x.finding.value = "") ∧
      x.env = env := by
  intro x
  have h : Fresh similar d env x := (fresh_start text).run messages
  refine ⟨(h.start_finding hk).symm, fun e => ?_, fun hfailure => ?_, h.env_eq⟩
  · rw [h.finding_eq]
    exact Finding.failure_ofText_eq_some
  · rw [h.finding_eq] at hfailure ⊢
    exact Finding.ofText_of_failure hfailure

/-- A line is typed, the screen is resized, and the last character is taken away. -/
def stillTyping : List Happening := [.typed "1 +\t2", .resized 80, .backspace, .quit]

/-- **After `stillTyping`**, with `1 + ` in the line, the failure of that text is shown. -/
theorem shows_current_text_stillTyping : ∃ d e, Dialect.compile .standard = .ok d ∧
    let x := stillTyping.foldl update (start .line Text.similar d .empty "")
    x.input = "1 + " ∧ x.finding = (start .line Text.similar d .empty "1 + ").finding ∧
      x.finding.failure = some e ∧ x.finding.tree = "" ∧ x.finding.value = "" := by
  obtain ⟨d, hd⟩ : ∃ d, Dialect.compile .standard = .ok d := ⟨_, rfl⟩
  have hnone : (d.parse (.ofString "1 +")).toOption.isNone = true := by
    cases hd
    decide +kernel
  cases hparse : d.parse (.ofString "1 +") with
  | ok t =>
    rw [hparse] at hnone
    cases hnone
  | error e =>
    obtain ⟨hfinding, hfailure, hnothing, -⟩ :=
      shows_current_text TextField.lawful_line Text.similar d .empty "" stillTyping
    have hinput : (stillTyping.foldl update (start .line Text.similar d .empty "")).input
        = "1 + " := by
      show (((Line.blank.put "").handle (.typed "1 +\t2")).handle .backspace).text = _
      decide +kernel
    have htrim : Text.trim "1 + " = "1 +" := by decide +kernel
    have hsome := (hfailure e).mpr (by rw [hinput, htrim]; exact ⟨by decide, hparse⟩)
    rw [hinput] at hfinding
    exact ⟨d, e, hd, hinput, hfinding, hsome, hnothing (by rw [hsome]; rfl)⟩

end Explorer

end Formulary
