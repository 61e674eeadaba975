import ComponentLint.Script.Grammar.Goal
import Mathlib.Data.Option.Basic

/-!
# Running parsers

What the parsers that others are put together from do at a cursor. With these equations a production is worked
out by simplification, once it is known which tokens stand at the cursor and behind it.

What holds of everything that a parser gives is said by `Parser.Ensures`. It holds of a sequence if the first parser ensures that
the rest does, so a production is taken apart by simplification. What a repetition gives is told by the list of its rounds
(`Parser.Grows`, `Parser.Collects`).
-/

namespace ComponentLint.Script

/-- A word that names a variable is none that is reserved. -/
theorem ne_of_isVariableName {name : String} (h : isVariableName name = true) : ∀ word ∈ reservedWords, name ≠ word := by
  rintro word hword rfl
  simp only [isVariableName, Bool.not_eq_true', List.contains_eq_mem, decide_eq_false_iff_not] at h
  exact h hword

namespace Parser

variable {α β : Type} {cursor next : Cursor}

@[simp] theorem bind_run (parser : Parser α) (f : α → Parser β) (cursor : Cursor) :
    (parser >>= f) cursor = (parser cursor).bind fun result => f result.1 result.2 :=
  rfl

@[simp] theorem pure_run (value : α) (cursor : Cursor) : (pure value : Parser α) cursor = some (value, cursor) :=
  rfl

@[simp] theorem map_run (f : α → β) (parser : Parser α) (cursor : Cursor) :
    (f <$> parser) cursor = (parser cursor).map fun result => (f result.1, result.2) := by
  rw [← bind_pure_comp, bind_run]
  cases parser cursor with
  | none => rfl
  | some result => rfl

@[simp] theorem ite_run (condition : Prop) [Decidable condition] (parser other : Parser α) (cursor : Cursor) :
    (if condition then parser else other) cursor = if condition then parser cursor else other cursor :=
  apply_ite (· cursor) condition parser other

@[simp] theorem failure_run (cursor : Cursor) : (failure : Parser α) cursor = none :=
  rfl

@[simp] theorem get_run (cursor : Cursor) : (get : Parser Cursor) cursor = some (cursor, cursor) :=
  rfl

@[simp] theorem guard_run (condition : Prop) [Decidable condition] (cursor : Cursor) :
    (guard condition : Parser Unit) cursor = if condition then some ((), cursor) else none := by
  have hguard := ite_run condition (pure () : Parser Unit) failure cursor
  rw [pure_run, failure_run] at hguard
  exact hguard

@[simp] theorem modify_run (f : Cursor → Cursor) (cursor : Cursor) : (modify f : Parser Unit) cursor = some ((), f cursor) :=
  rfl

@[simp] theorem permit_true_run (cursor : Cursor) : permit true cursor = some ((), cursor) :=
  rfl

/-! ## The current token -/

@[simp] theorem token_run (cursor : Cursor) : token cursor = some (cursor.token, cursor) :=
  rfl

@[simp] theorem tokenStart_run (cursor : Cursor) : tokenStart cursor = some (cursor.here.offset, cursor) :=
  rfl

@[simp] theorem onNewLine_run (cursor : Cursor) : onNewLine cursor = some (cursor.newline, cursor) :=
  rfl

@[simp] theorem at?_run (mark : String) (cursor : Cursor) : at? mark cursor = some (cursor.token == .punct mark, cursor) :=
  rfl

@[simp] theorem atWord?_run (name : String) (cursor : Cursor) : atWord? name cursor =
    some (cursor.token.isKeyword name, cursor) :=
  rfl

@[simp] theorem nextIs_run (test : Cursor → Bool) (cursor : Cursor) : nextIs test cursor = some (test cursor.advance, cursor) :=
  rfl

@[simp] theorem ahead_run (look : Parser Bool) (cursor : Cursor) :
    ahead look cursor = some (((look cursor).map (·.1)).getD false, cursor) :=
  rfl

@[simp] theorem finish_run (kind : Kind) (start : Nat) (children : List Node) (cursor : Cursor) :
    finish kind start children cursor = some (⟨kind, ⟨start, cursor.previous⟩, children⟩, cursor) :=
  rfl

@[simp] theorem bumpName_run (cursor : Cursor) : bumpName cursor = some ((), cursor.advance) :=
  rfl

/-- A token that is not an escaped word is passed without a fault. -/
theorem bump_run (h : ∀ name, cursor.token ≠ .word name true) : bump cursor = some ((), cursor.advance) := by
  unfold bump
  cases htoken : cursor.token with
  | word name escaped =>
    cases escaped with
    | true => exact absurd htoken (h name)
    | false => simp [htoken]
  | _ => simp [htoken]

/-- A mark that is not there is not passed. -/
theorem eat?_run {mark : String} (h : cursor.token ≠ .punct mark) : eat? mark cursor = some (false, cursor) := by
  simp [eat?, h]

/-! ## Repetition -/

@[simp] theorem bound_run (cursor : Cursor) : bound cursor = some (cursor.here.chars.length + 2, cursor) :=
  rfl

/-- A repetition stops at once where there is no item. -/
theorem many_run {item : Parser (Option α)} (h : item cursor = some (none, next)) : many item cursor = some ([], next) := by
  simp [many, collect, h]

/-- A value is not changed where there is no step. -/
theorem grow_run {step : α → Parser (Option α)} {value : α} (h : step value cursor = some (none, next)) :
    grow step value cursor = some (value, next) := by
  simp [grow, growWith, h]

/-- A value is changed once where there is one step. -/
theorem grow_run_once {step : α → Parser (Option α)} {value changed : α} {last : Cursor}
    (h : step value cursor = some (some changed, next)) (hlast : step changed next = some (none, last)) :
    grow step value cursor = some (changed, last) := by
  simp [grow, growWith, h, hlast]

/-- One item is all where no mark follows it. -/
theorem separated_run {mark : String} {item : Parser α} {first : α} (hitem : item cursor = some (first, next))
    (hmark : next.token ≠ .punct mark) : separated mark item cursor = some ([first], next) := by
  have hrest : many (do
      if ← eat? mark then return some (← item)
      return none) next = some ([], next) := many_run (by simp [eat?_run hmark])
  simp only [separated, bind_run, hitem, Option.bind_some, hrest, pure_run]

end Parser

/-! ## Outcomes -/

/-- Whatever a parser gives at a cursor, the value and the cursor behind it are related as said. -/
def Parser.Ensures {α : Type} (parser : Parser α) (cursor : Cursor) (post : α → Cursor → Prop) : Prop :=
  ∀ value next, parser cursor = some (value, next) → post value next

/-- A value is changed round by round, and the cursor moves along. -/
inductive Parser.Grows {α : Type} (step : α → Parser (Option α)) (value : α) (cursor : Cursor) : α → Cursor → Prop where
  | refl : Parser.Grows step value cursor value cursor
  | tail {changed last : α} {between next : Cursor} : Parser.Grows step value cursor changed between →
      step changed between = some (some last, next) → Parser.Grows step value cursor last next

/-- Items are read one after the other, until there is none. -/
inductive Parser.Collects {α : Type} (item : Parser (Option α)) : Cursor → List α → Cursor → Prop where
  | nil {cursor next : Cursor} : item cursor = some (none, next) → Parser.Collects item cursor [] next
  | cons {cursor between next : Cursor} {first : α} {rest : List α} : item cursor = some (some first, between) →
      Parser.Collects item between rest next → Parser.Collects item cursor (first :: rest) next

namespace Parser

variable {α β : Type} {cursor next : Cursor}

theorem Ensures.mono {parser : Parser α} {post other : α → Cursor → Prop} (h : parser.Ensures cursor post)
    (hpost : ∀ value next, post value next → other value next) : parser.Ensures cursor other :=
  fun value next hrun => hpost value next (h value next hrun)

@[simp] theorem ensures_true (parser : Parser α) (cursor : Cursor) : parser.Ensures cursor fun _ _ => True :=
  fun _ _ _ => trivial

theorem ensures_of_run {parser : Parser α} {value : α} (h : parser cursor = some (value, next)) (post : α → Cursor → Prop) :
    parser.Ensures cursor post ↔ post value next := by
  constructor
  · exact fun hpost => hpost value next h
  · intro hpost found last hrun
    obtain ⟨rfl, rfl⟩ := Prod.mk.inj (Option.some.inj (h.symm.trans hrun))
    exact hpost

theorem ensures_of_run_none {parser : Parser α} (h : parser cursor = none) (post : α → Cursor → Prop) :
    parser.Ensures cursor post := by
  intro value next hrun
  cases h.symm.trans hrun

@[simp] theorem bind_ensures (parser : Parser α) (rest : α → Parser β) (cursor : Cursor) (post : β → Cursor → Prop) :
    (parser >>= rest).Ensures cursor post ↔ parser.Ensures cursor fun value next => (rest value).Ensures next post := by
  constructor
  · intro h value between hvalue last next hrest
    refine h last next ?_
    rw [bind_run, hvalue]
    exact hrest
  · intro h last next hrun
    obtain ⟨⟨value, between⟩, hvalue, hrest⟩ := Option.bind_eq_some_iff.1 hrun
    exact h value between hvalue last next hrest

@[simp] theorem pure_ensures (value : α) (cursor : Cursor) (post : α → Cursor → Prop) :
    (pure value : Parser α).Ensures cursor post ↔ post value cursor :=
  ensures_of_run rfl post

@[simp] theorem map_ensures (f : α → β) (parser : Parser α) (cursor : Cursor) (post : β → Cursor → Prop) :
    (f <$> parser).Ensures cursor post ↔ parser.Ensures cursor fun value next => post (f value) next := by
  rw [← bind_pure_comp, bind_ensures]
  simp only [pure_ensures]

@[simp] theorem failure_ensures (cursor : Cursor) (post : α → Cursor → Prop) : (failure : Parser α).Ensures cursor post :=
  ensures_of_run_none rfl post

@[simp] theorem ite_ensures (condition : Prop) [Decidable condition] (parser other : Parser α) (cursor : Cursor)
    (post : α → Cursor → Prop) : (if condition then parser else other).Ensures cursor post ↔
      (condition → parser.Ensures cursor post) ∧ (¬condition → other.Ensures cursor post) := by
  split
  · next h => simp [h]
  · next h => simp [h]

@[simp] theorem get_ensures (cursor : Cursor) (post : Cursor → Cursor → Prop) :
    (get : Parser Cursor).Ensures cursor post ↔ post cursor cursor :=
  ensures_of_run rfl post

@[simp] theorem guard_ensures (condition : Prop) [Decidable condition] (cursor : Cursor) (post : Unit → Cursor → Prop) :
    (guard condition : Parser Unit).Ensures cursor post ↔ (condition → post () cursor) := by
  by_cases h : condition
  · rw [ensures_of_run (by rw [guard_run, if_pos h]) post]
    exact ⟨fun hpost _ => hpost, fun hpost => hpost h⟩
  · exact ⟨fun _ hcondition => absurd hcondition h, fun _ => ensures_of_run_none (by rw [guard_run, if_neg h]) post⟩

@[simp] theorem set_ensures (place cursor : Cursor) (post : PUnit → Cursor → Prop) :
    (set place : Parser PUnit).Ensures cursor post ↔ post ⟨⟩ place :=
  ensures_of_run rfl post

/-! ## The current token -/

@[simp] theorem token_ensures (cursor : Cursor) (post : Token → Cursor → Prop) :
    token.Ensures cursor post ↔ post cursor.token cursor :=
  ensures_of_run rfl post

@[simp] theorem tokenStart_ensures (cursor : Cursor) (post : Nat → Cursor → Prop) :
    tokenStart.Ensures cursor post ↔ post cursor.here.offset cursor :=
  ensures_of_run rfl post

@[simp] theorem onNewLine_ensures (cursor : Cursor) (post : Bool → Cursor → Prop) :
    onNewLine.Ensures cursor post ↔ post cursor.newline cursor :=
  ensures_of_run rfl post

@[simp] theorem at?_ensures (mark : String) (cursor : Cursor) (post : Bool → Cursor → Prop) :
    (at? mark).Ensures cursor post ↔ post (cursor.token == .punct mark) cursor :=
  ensures_of_run rfl post

@[simp] theorem atWord?_ensures (name : String) (cursor : Cursor) (post : Bool → Cursor → Prop) :
    (atWord? name).Ensures cursor post ↔ post (cursor.token.isKeyword name) cursor :=
  ensures_of_run rfl post

@[simp] theorem nextIs_ensures (test : Cursor → Bool) (cursor : Cursor) (post : Bool → Cursor → Prop) :
    (nextIs test).Ensures cursor post ↔ post (test cursor.advance) cursor :=
  ensures_of_run rfl post

@[simp] theorem finish_ensures (kind : Kind) (start : Nat) (children : List Node) (cursor : Cursor)
    (post : Node → Cursor → Prop) :
    (finish kind start children).Ensures cursor post ↔ post ⟨kind, ⟨start, cursor.previous⟩, children⟩ cursor :=
  ensures_of_run rfl post

@[simp] theorem bumpName_ensures (cursor : Cursor) (post : Unit → Cursor → Prop) :
    bumpName.Ensures cursor post ↔ post () cursor.advance :=
  ensures_of_run rfl post

/-- What is looked at ahead does not move the cursor. -/
@[simp] theorem ahead_ensures (look : Parser Bool) (cursor : Cursor) (post : Bool → Cursor → Prop) :
    (ahead look).Ensures cursor post ↔ post (((look cursor).map (·.1)).getD false) cursor :=
  ensures_of_run rfl post

/-- An attempt that fails does not move the cursor. -/
@[simp] theorem attempt_ensures (parser : Parser α) (cursor : Cursor) (post : Option α → Cursor → Prop) :
    (attempt parser).Ensures cursor post ↔
      parser.Ensures cursor (fun value next => post (some value) next) ∧ (parser cursor = none → post none cursor) := by
  cases h : parser cursor with
  | none => simp [ensures_of_run (show attempt parser cursor = some (none, cursor) by simp [attempt, h]), ensures_of_run_none h]
  | some result =>
    simp [ensures_of_run (show attempt parser cursor = some (some result.1, result.2) by simp [attempt, h]),
      ensures_of_run (show parser cursor = some (result.1, result.2) from h)]

@[simp] theorem permit_ensures (condition : Bool) (cursor : Cursor) (post : Unit → Cursor → Prop) :
    (permit condition).Ensures cursor post ↔ post () (if condition then cursor else cursor.flag) := by
  cases condition with
  | true => exact ensures_of_run rfl post
  | false => exact ensures_of_run rfl post

/-- A token that is not an escaped word is passed without a fault. -/
theorem bump_ensures (h : ∀ name, cursor.token ≠ .word name true) (post : Unit → Cursor → Prop) :
    bump.Ensures cursor post ↔ post () cursor.advance :=
  ensures_of_run (bump_run h) post

@[simp] theorem eat?_ensures (mark : String) (cursor : Cursor) (post : Bool → Cursor → Prop) :
    (eat? mark).Ensures cursor post ↔
      (cursor.token = .punct mark → post true cursor.advance) ∧ (cursor.token ≠ .punct mark → post false cursor) := by
  by_cases h : cursor.token = .punct mark
  · have hrun : eat? mark cursor = some (true, cursor.advance) := by
      simp [eat?, h, bump_run]
    simp [ensures_of_run hrun, h]
  · simp [ensures_of_run (eat?_run h), h]

@[simp] theorem expect_ensures (mark : String) (cursor : Cursor) (post : Unit → Cursor → Prop) :
    (expect mark).Ensures cursor post ↔ (cursor.token = .punct mark → post () cursor.advance) := by
  simp [expect]

/-- What is looked for ahead is not there, if nothing that is read says so. -/
theorem ahead_run_false {look : Parser Bool} (h : look.Ensures cursor fun found _ => found = false) :
    ahead look cursor = some (false, cursor) := by
  rw [ahead_run]
  cases hrun : look cursor with
  | none => rfl
  | some result => rw [← h result.1 result.2 hrun]; rfl

/-! ## Repetition -/

theorem Grows.head {step : α → Parser (Option α)} {value changed last : α} {between : Cursor}
    (hstep : step value cursor = some (some changed, between)) (h : Grows step changed between last next) :
    Grows step value cursor last next := by
  induction h with
  | refl => exact .tail .refl hstep
  | tail _ hlast ih => exact .tail ih hlast

/-- What has grown is what the rounds lead to, where there is no further one. -/
theorem growWith_ensures (step : α → Parser (Option α)) (fuel : Nat) (value : α) (cursor : Cursor) :
    (growWith step fuel value).Ensures cursor fun last next =>
      ∃ between, Grows step value cursor last between ∧ step last between = some (none, next) := by
  induction fuel generalizing value cursor with
  | zero => exact failure_ensures _ _
  | succ fuel ih =>
    rw [growWith, bind_ensures]
    intro changed? between hstep
    cases changed? with
    | none => exact (pure_ensures _ _ _).2 ⟨cursor, .refl, hstep⟩
    | some changed =>
      refine (ih changed between).mono fun last next => ?_
      rintro ⟨place, hgrows, hlast⟩
      exact ⟨place, .head hstep hgrows, hlast⟩

theorem grow_ensures (step : α → Parser (Option α)) (value : α) (cursor : Cursor) :
    (grow step value).Ensures cursor fun last next =>
      ∃ between, Grows step value cursor last between ∧ step last between = some (none, next) :=
  growWith_ensures step _ value cursor

theorem collect_ensures (item : Parser (Option α)) (fuel : Nat) (cursor : Cursor) :
    (collect item fuel).Ensures cursor (Collects item cursor) := by
  induction fuel generalizing cursor with
  | zero => exact failure_ensures _ _
  | succ fuel ih =>
    rw [collect, bind_ensures]
    intro item? between hitem
    cases item? with
    | none => exact (pure_ensures _ _ _).2 (.nil hitem)
    | some first =>
      refine (bind_ensures _ _ _ _).2 ((ih between).mono fun rest next hrest => ?_)
      exact (pure_ensures _ _ _).2 (.cons hitem hrest)

theorem many_ensures (item : Parser (Option α)) (cursor : Cursor) : (many item).Ensures cursor (Collects item cursor) :=
  collect_ensures item _ cursor

/-- What a separated list begins with is an item; if it is all, no mark follows it. -/
theorem separated_ensures (mark : String) (item : Parser α) (cursor : Cursor) :
    (separated mark item).Ensures cursor fun items next => ∀ first, items = [first] →
      item cursor = some (first, next) ∧ next.token ≠ .punct mark := by
  rw [separated, bind_ensures]
  intro first between hfirst
  refine (bind_ensures _ _ _ _).2 ((many_ensures _ between).mono fun rest next hrest => ?_)
  rw [pure_ensures]
  rintro _ ⟨⟩
  cases hrest with
  | nil hnone =>
    have hends : (do if ← eat? mark then return some (← item)
                     return none : Parser (Option α)).Ensures between fun item? next =>
        item? = none → between.token ≠ .punct mark ∧ next = between := by
      simp
    obtain ⟨hmark, rfl⟩ := hends _ _ hnone rfl
    exact ⟨hfirst, hmark⟩

end Parser

end ComponentLint.Script
