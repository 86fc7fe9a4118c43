import WithScope.Syntax.Cover

/-!
# Induction over expressions that are read again

`Expr.toPattern` follows an expression down to where the pattern ends, and there are many ways for
it to fail. What is said about the patterns that it does give is said by induction over these ways,
and the induction is the same each time. A `CoverRule` holds the cases: how a relation between
expressions and patterns follows from the relations between their parts. `CoverRule.pattern` then
gives the relation of every expression to the pattern that it spells, and `CoverRule.params` that of
the items of a parenthesized list to the parameters.

A relation usually says that what holds of an expression holds of the pattern as well.
-/

namespace WithScope

/-- Whether an expression is a spread element. -/
def Expr.isSpread : Expr → Bool
  | .spread .. => true
  | _ => false

/-- Whether a property of an object literal is spread. -/
def Property.isSpread : Property → Bool
  | .spread .. => true
  | _ => false

theorem exists_of_bind_eq_ok {α β ε : Type} {x : Except ε α} {f : α → Except ε β} {b : β}
    (h : x >>= f = .ok b) : ∃ a, x = .ok a ∧ f a = .ok b := by
  cases x with
  | error e => cases h
  | ok a => exact ⟨a, rfl, h⟩

theorem exists_of_map_eq_ok {α β ε : Type} {x : Except ε α} {f : α → β} {b : β}
    (h : f <$> x = .ok b) : ∃ a, x = .ok a ∧ f a = b := by
  cases x with
  | error e => cases h
  | ok a => exact ⟨a, rfl, Except.ok.inj h⟩

/-- A condition that is checked first, and what is done if it does not hold. -/
theorem of_unless_throw {α ε : Type} {c : Prop} [Decidable c] {e : ε} {x : Except ε α} {a : α}
    (h : (do if c then throw e
             x : Except ε α) = .ok a) : ¬c ∧ x = .ok a := by
  split at h
  · cases h
  · exact ⟨‹_›, h⟩

/-- Relations between expressions and patterns that hold if they hold of their parts: `R` between
single ones, `Elements` and `Properties` between those of literals, and `Single` between single
properties. -/
structure CoverRule (declares : Bool) (R : Expr → Pat → Prop)
    (Elements : List (Option Expr) → List (Option Pat) → Prop)
    (Properties : List Property → List PatProperty → Prop)
    (Single : Property → PatProperty → Prop) : Prop where
  ident : ∀ id, R (.ident id) (.ident id)
  array : ∀ {loc elements ps}, Elements elements ps → R (.array loc elements) (.array loc ps)
  object : ∀ {loc properties ps}, Properties properties ps →
    R (.object loc properties) (.object loc ps)
  assign : ∀ {loc left right}, (declares && left.hasMember) = false →
    R (.assign loc .assign left right) (.assign loc left right)
  member : declares = false → ∀ {loc e name},
    R (.member loc e name false) (.expr (.member loc e name false))
  paren : declares = false → ∀ {loc e p}, R e p → R (.paren loc e) p
  noElements : Elements [] []
  hole : ∀ {elements ps}, Elements elements ps → Elements (none :: elements) (none :: ps)
  restElement : ∀ {loc e p}, R e p → Elements [some (.spread loc e)] [some (.rest loc p)]
  element : ∀ {e p elements ps}, R e p → Elements elements ps →
    Elements (some e :: elements) (some p :: ps)
  noProperties : Properties [] []
  restProperty : ∀ {loc e p}, R e p → Properties [.spread loc e] [.rest loc p]
  property : ∀ {property p properties ps}, Single property p → Properties properties ps →
    Properties (property :: properties) (p :: ps)
  shorthand : ∀ {loc id}, Single (.shorthand loc (.ident id)) (.shorthand loc id none)
  default : ∀ {loc key value right}, coverDefault? key value = some right →
    Single (.value loc (.ident key) value) (.shorthand loc key (some right))
  value : ∀ {loc key value p}, R value p → Single (.value loc key value) (.keyValue loc key p)

namespace CoverRule

variable {declares : Bool} {R : Expr → Pat → Prop}
  {Elements : List (Option Expr) → List (Option Pat) → Prop}
  {Properties : List Property → List PatProperty → Prop} {Single : Property → PatProperty → Prop}

mutual

/-- An expression is related to the pattern that it spells. -/
theorem pattern (h : CoverRule declares R Elements Properties Single) (e : Expr) {p : Pat}
    (hp : e.toPattern declares = .ok p) : R e p := by
  cases e
  case ident id =>
    cases hp
    exact h.ident id
  case array loc elements =>
    rw [Expr.toPattern] at hp
    obtain ⟨ps, hps, rfl⟩ := exists_of_map_eq_ok hp
    exact h.array (h.elements elements hps)
  case object loc properties =>
    rw [Expr.toPattern] at hp
    obtain ⟨ps, hps, rfl⟩ := exists_of_map_eq_ok hp
    exact h.object (h.properties properties hps)
  case assign loc op left right =>
    cases op
    case assign =>
      rw [Expr.toPattern] at hp
      split at hp
      · cases hp
      · cases hp
        exact h.assign (Bool.not_eq_true _ ▸ ‹_›)
    all_goals cases declares <;> cases hp
  case member loc object name isOptional =>
    cases declares <;> cases isOptional <;> cases hp
    exact h.member rfl
  case paren loc inner =>
    -- only in an assignment, and around a name, a member access or more parentheses
    have hinner : declares = false ∧ inner.toPattern declares = .ok p := by
      cases declares
      case true => cases hp
      case false => cases inner <;> first | exact ⟨rfl, hp⟩ | cases hp
    exact h.paren hinner.1 (h.pattern inner hinner.2)
  all_goals cases declares <;> cases hp

/-- The elements of an array literal are related to those of the pattern. -/
theorem elements (h : CoverRule declares R Elements Properties Single)
    (es : List (Option Expr)) {ps : List (Option Pat)}
    (hps : toPatternElements declares es = .ok ps) : Elements es ps := by
  match es with
  | [] =>
    cases hps
    exact h.noElements
  | none :: es =>
    rw [toPatternElements] at hps
    obtain ⟨rest, hrest, hps⟩ := exists_of_bind_eq_ok hps
    cases hps
    exact h.hole (h.elements es hrest)
  | some e :: es =>
    cases hspread : e.isSpread
    case true =>
      cases e <;> cases hspread
      case spread loc argument =>
      rw [toPatternElements] at hps
      obtain ⟨hlast, hps⟩ := of_unless_throw hps
      obtain ⟨p, hp, hps⟩ := exists_of_bind_eq_ok hps
      cases hps
      cases es with
      | nil => exact h.restElement (h.pattern argument hp)
      | cons => cases hlast rfl
    case false =>
      rw [toPatternElements] at hps
      · obtain ⟨p, hp, hps⟩ := exists_of_bind_eq_ok hps
        obtain ⟨rest, hrest, hps⟩ := exists_of_bind_eq_ok hps
        cases hps
        exact h.element (h.pattern e hp) (h.elements es hrest)
      · rintro loc argument rfl
        cases hspread

/-- The properties of an object literal are related to those of the pattern. -/
theorem properties (h : CoverRule declares R Elements Properties Single)
    (properties : List Property) {ps : List PatProperty}
    (hps : toPatternProperties declares properties = .ok ps) : Properties properties ps := by
  match properties with
  | [] =>
    cases hps
    exact h.noProperties
  | property :: properties =>
    cases hspread : property.isSpread
    case true =>
      cases property <;> cases hspread
      case spread loc argument =>
      rw [toPatternProperties] at hps
      obtain ⟨hlast, hps⟩ := of_unless_throw hps
      obtain ⟨p, hp, hps⟩ := exists_of_bind_eq_ok hps
      cases hps
      cases properties with
      | nil => exact h.restProperty (h.pattern argument hp)
      | cons => cases hlast rfl
    case false =>
      rw [toPatternProperties] at hps
      · obtain ⟨p, hp, hps⟩ := exists_of_bind_eq_ok hps
        obtain ⟨rest, hrest, hps⟩ := exists_of_bind_eq_ok hps
        cases hps
        exact h.property (h.single property hspread hp) (h.properties properties hrest)
      · rintro loc argument rfl
        cases hspread

/-- A property that is not spread is related to that of the pattern. -/
theorem single (h : CoverRule declares R Elements Properties Single) (property : Property)
    (hspread : property.isSpread = false) {p : PatProperty}
    (hp : property.toPattern declares = .ok p) : Single property p := by
  cases property with
  | shorthand loc key =>
    cases key <;> cases hp
    exact h.shorthand
  | value loc key value =>
    cases key
    case ident key =>
      rw [Property.toPattern] at hp
      split at hp
      case h_1 right hr =>
        cases hp
        exact h.default hr
      case h_2 =>
        obtain ⟨q, hq, rfl⟩ := exists_of_map_eq_ok hp
        exact h.value (h.pattern value hq)
    all_goals
      obtain ⟨q, hq, rfl⟩ := exists_of_map_eq_ok hp
      exact h.value (h.pattern value hq)
  | method => cases hp
  | spread => cases hspread

end

/-- The items of a parenthesized list are related to the parameters that they spell, if a relation
between such lists holds if it holds of its parts. -/
theorem params {P : List Expr → List Pat → Prop}
    (h : CoverRule true R Elements Properties Single) (hnil : P [] [])
    (hrest : ∀ {loc e p}, R e p → P [.spread loc e] [.rest loc p])
    (hcons : ∀ {e p items ps}, R e p → P items ps → P (e :: items) (p :: ps))
    {items : List Expr} {ps : List Pat} (hps : toParams items = .ok ps) : P items ps := by
  induction items generalizing ps with
  | nil =>
    cases hps
    exact hnil
  | cons e items ih =>
    cases hspread : e.isSpread
    case true =>
      cases e <;> cases hspread
      case spread loc argument =>
      rw [toParams] at hps
      obtain ⟨hlast, hps⟩ := of_unless_throw hps
      obtain ⟨p, hp, hps⟩ := exists_of_bind_eq_ok hps
      cases hps
      cases items with
      | nil => exact hrest (h.pattern argument hp)
      | cons => cases hlast rfl
    case false =>
      rw [toParams] at hps
      · obtain ⟨p, hp, hps⟩ := exists_of_bind_eq_ok hps
        obtain ⟨rest, hrest, hps⟩ := exists_of_bind_eq_ok hps
        cases hps
        exact hcons (h.pattern e hp) (ih hrest)
      · rintro loc argument rfl
        cases hspread

end CoverRule

/-- Where no parentheses are allowed, a pattern stands where the expression stands. -/
theorem placeCover : CoverRule true (fun e p => p.loc = e.loc) (fun _ _ => True) (fun _ _ => True)
    (fun _ _ => True) where
  ident _ := rfl
  array _ := rfl
  object _ := rfl
  assign _ := rfl
  member h := Bool.noConfusion h
  paren h := Bool.noConfusion h
  noElements := trivial
  hole _ := trivial
  restElement _ := trivial
  element _ _ := trivial
  noProperties := trivial
  restProperty _ := trivial
  property _ _ := trivial
  shorthand := trivial
  default _ := trivial
  value _ := trivial

/-- Parameters stand where the items stand that spell them. -/
theorem map_loc_of_toParams {items : List Expr} {ps : List Pat} (hps : toParams items = .ok ps) :
    ps.map Pat.loc = items.map Expr.loc := by
  refine placeCover.params (P := fun items ps => ps.map Pat.loc = items.map Expr.loc) rfl
    (fun _ => rfl) (fun he hitems => ?_) hps
  rw [List.map_cons, List.map_cons, he, hitems]

end WithScope
