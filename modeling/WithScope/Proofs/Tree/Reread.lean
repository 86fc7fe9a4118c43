import WithScope.Proofs.Tree.Legal
import WithScope.Proofs.Tree.Relocated

/-!
# Trees are read alike at any place

What the grammar asks of the trees it has read, it asks of what they are and not of where they
stand. Reading an expression again as a pattern is the one case that needs an argument: a default
value is told from a property by whether two names stand at the same place, so the move has to keep
different places apart.
-/

namespace WithScope

open Relocatable (relocated)

variable {f : Position → Position}

/-! ## Shapes -/

/-- Moving an arrow function leaves it one. -/
@[simp] theorem Expr.isArrow_relocated (e : Expr) : (e.relocated f).isArrow = e.isArrow := by
  cases e <;> rfl

/-- Moving a simple target leaves it one. -/
@[simp] theorem Expr.isSimpleTarget_relocated (e : Expr) :
    (e.relocated f).isSimpleTarget = e.isSimpleTarget := by
  cases e <;> rfl

/-- Parentheses are taken off before moving or after. -/
@[simp] theorem Expr.unparenthesized_relocated (e : Expr) :
    (e.relocated f).unparenthesized = e.unparenthesized.relocated f := by
  fun_induction Expr.unparenthesized e with
  | case1 loc e ih => rw [Expr.relocated, Expr.unparenthesized, ih]
  | case2 e he =>
    cases e
    case paren loc e => exact absurd rfl (he loc e)
    all_goals rfl

/-- The span of an expression is moved with it. -/
@[simp] theorem Expr.loc_relocated (e : Expr) : (e.relocated f).loc = Relocatable.relocated f e.loc := by
  cases e
  case template t => cases t; rfl
  case function func => cases func; rfl
  case «class» c => cases c; rfl
  all_goals rfl

mutual

/-- Moving a pattern leaves the members in it. -/
@[simp] theorem Pat.hasMember_relocated (p : Pat) : (p.relocated f).hasMember = p.hasMember := by
  cases p with
  | array loc elements => exact elementsHaveMember_relocated elements
  | object loc properties => exact propertiesHaveMember_relocated properties
  | rest loc argument => exact argument.hasMember_relocated
  | assign loc left right => exact left.hasMember_relocated
  | _ => rfl

/-- As `Pat.hasMember_relocated`, for elements. -/
theorem elementsHaveMember_relocated (elements : List (Option Pat)) :
    elementsHaveMember (relocatedPatElements f elements) = elementsHaveMember elements := by
  match elements with
  | [] => rfl
  | none :: elements => exact elementsHaveMember_relocated elements
  | some p :: elements =>
    rw [relocatedPatElements, elementsHaveMember, elementsHaveMember, p.hasMember_relocated,
      elementsHaveMember_relocated elements]

/-- As `Pat.hasMember_relocated`, for properties. -/
theorem propertiesHaveMember_relocated (properties : List PatProperty) :
    propertiesHaveMember (relocatedPatProperties f properties) = propertiesHaveMember properties := by
  match properties with
  | [] => rfl
  | p :: properties =>
    rw [relocatedPatProperties, propertiesHaveMember, propertiesHaveMember, p.hasMember_relocated,
      propertiesHaveMember_relocated properties]

/-- As `Pat.hasMember_relocated`, for one property. -/
theorem PatProperty.hasMember_relocated (p : PatProperty) :
    (p.relocated f).hasMember = p.hasMember := by
  cases p with
  | keyValue loc key value => exact value.hasMember_relocated
  | shorthand loc id value => rfl
  | rest loc argument => exact argument.hasMember_relocated

end

mutual

/-- The place where a pattern binds a name moves with the pattern. -/
@[simp] theorem Pat.find?_relocated (name : String) (p : Pat) :
    (p.relocated f).find? name = (p.find? name).map f := by
  cases p with
  | ident id =>
    change (if id.name = name then some (f id.loc.start) else none) = _
    rw [Pat.find?]
    split <;> rfl
  | array loc elements => exact findElement?_relocated name elements
  | object loc properties => exact findProperty?_relocated name properties
  | rest loc argument => exact argument.find?_relocated name
  | assign loc left right => exact left.find?_relocated name
  | expr target => rfl

/-- The name that is found in elements is moved with them. -/
theorem findElement?_relocated (name : String) (elements : List (Option Pat)) :
    findElement? name (relocatedPatElements f elements) = (findElement? name elements).map f := by
  match elements with
  | [] => rfl
  | none :: elements => exact findElement?_relocated name elements
  | some p :: elements =>
    rw [relocatedPatElements, findElement?, findElement?, p.find?_relocated name,
      findElement?_relocated name elements, Option.map_or]

/-- The name that is found in properties is moved with them. -/
theorem findProperty?_relocated (name : String) (properties : List PatProperty) :
    findProperty? name (relocatedPatProperties f properties)
      = (findProperty? name properties).map f := by
  match properties with
  | [] => rfl
  | p :: properties =>
    rw [relocatedPatProperties, findProperty?, findProperty?, p.find?_relocated name,
      findProperty?_relocated name properties, Option.map_or]

/-- The name that is found in a property is moved with it. -/
theorem PatProperty.find?_relocated (name : String) (p : PatProperty) :
    (p.relocated f).find? name = (p.find? name).map f := by
  cases p with
  | keyValue loc key value => exact value.find?_relocated name
  | shorthand loc id value =>
    change (if id.name = name then some (f id.loc.start) else none) = _
    rw [PatProperty.find?]
    split <;> rfl
  | rest loc argument => exact argument.find?_relocated name

end

/-! ## Expressions read again as patterns -/

section

variable (hf : Function.Injective f)
include hf

/-- Spans that are the same after moving were the same before. -/
theorem relocated_span_inj {a b : Span} (h : relocated f a = relocated f b) : a = b := by
  obtain ⟨start, stop⟩ := a
  obtain ⟨start', stop'⟩ := b
  simp only [relocated, Span.mk.injEq] at h ⊢
  exact ⟨hf h.1, hf h.2⟩

/-- A default under a shorthand is moved with its value. -/
theorem coverDefault?_relocated (key : Ident) (value : Expr) :
    coverDefault? (relocated f key) (value.relocated f)
      = (coverDefault? key value).map (Expr.relocated f) := by
  cases value with
  | assign loc op left right =>
    cases left with
    | ident id =>
      change (if relocated f id.loc = relocated f key.loc then some (right.relocated f) else none) = _
      rw [coverDefault?]
      by_cases h : id.loc = key.loc
      · rw [if_pos h, if_pos (congrArg _ h)]
        rfl
      · rw [if_neg h, if_neg fun hmeet => h (relocated_span_inj hf hmeet)]
        rfl
    | _ => rfl
  | _ => rfl

end

/-- A spread is the rest of a pattern if nothing follows it. -/
theorem toPatternElements_spread (declares : Bool) (loc : Span) (argument : Expr)
    (elements : List (Option Expr)) :
    toPatternElements declares (some (.spread loc argument) :: elements) =
      if elements.isEmpty then (fun p => [some (.rest loc p)]) <$> argument.toPattern declares
      else .error ⟨.restNotLast, loc.start⟩ := by
  rw [toPatternElements]
  cases elements.isEmpty <;> cases argument.toPattern declares <;> rfl

/-- Any other element is a target. -/
theorem toPatternElements_cons (declares : Bool) {e : Expr} (he : e.isSpread = false)
    (elements : List (Option Expr)) :
    toPatternElements declares (some e :: elements) =
      (do return some (← e.toPattern declares) :: (← toPatternElements declares elements)) := by
  cases e <;> first | rfl | cases he

/-- A spread is the rest of a pattern if no property follows it. -/
theorem toPatternProperties_spread (declares : Bool) (loc : Span) (argument : Expr)
    (properties : List Property) :
    toPatternProperties declares (.spread loc argument :: properties) =
      if properties.isEmpty then (fun p => [.rest loc p]) <$> argument.toPattern declares
      else .error ⟨.restNotLast, loc.start⟩ := by
  rw [toPatternProperties]
  cases properties.isEmpty <;> cases argument.toPattern declares <;> rfl

/-- Any other property is one of the pattern. -/
theorem toPatternProperties_of_not_spread (declares : Bool) {p : Property} (hp : p.isSpread = false)
    (properties : List Property) :
    toPatternProperties declares (p :: properties) =
      (do return (← p.toPattern declares) :: (← toPatternProperties declares properties)) := by
  cases p <;> first | rfl | cases hp

/-- Moving a spread leaves it one. -/
@[simp] theorem Expr.isSpread_relocated (e : Expr) : (e.relocated f).isSpread = e.isSpread := by
  cases e <;> rfl

/-- As `Expr.isSpread_relocated`, for a property. -/
@[simp] theorem Property.isSpread_relocated (p : Property) :
    (p.relocated f).isSpread = p.isSpread := by
  cases p <;> rfl

mutual

/-- An expression spells the same pattern wherever it stands. -/
theorem Expr.toPattern_relocated (hf : Function.Injective f) (declares : Bool) (e : Expr) :
    (e.relocated f).toPattern declares = Relocatable.relocated f (e.toPattern declares) := by
  cases e
  case array loc elements =>
    have ih := toPatternElements_relocated hf declares elements
    simp only [Expr.relocated, Expr.toPattern, ih]
    cases toPatternElements declares elements with
    | error e => rfl
    | ok ps => exact congrArg (Except.ok ∘ Pat.array _) (relocatedPatElements_eq_map f ps).symm
  case object loc properties =>
    have ih := toPatternProperties_relocated hf declares properties
    simp only [Expr.relocated, Expr.toPattern, ih]
    cases toPatternProperties declares properties with
    | error e => rfl
    | ok ps => exact congrArg (Except.ok ∘ Pat.object _) (relocatedPatProperties_eq_map f ps).symm
  case assign loc op left right =>
    cases op
    case assign =>
      simp only [Expr.relocated, Expr.toPattern, left.hasMember_relocated]
      split <;> rfl
    all_goals cases declares <;> rfl
  case member loc object property isOptional => cases declares <;> cases isOptional <;> rfl
  case paren loc inner =>
    cases declares
    case true => rfl
    case false =>
      have ih := inner.toPattern_relocated hf false
      cases inner <;> first | exact ih | rfl
  case template t => cases t; cases declares <;> rfl
  case function func => cases func; cases declares <;> rfl
  case «class» c => cases c; cases declares <;> rfl
  all_goals cases declares <;> rfl

/-- Elements are read as targets before moving or after. -/
theorem toPatternElements_relocated (hf : Function.Injective f) (declares : Bool)
    (elements : List (Option Expr)) :
    toPatternElements declares (relocatedElements f elements)
      = relocated f (toPatternElements declares elements) := by
  match elements with
  | [] => rfl
  | none :: elements =>
    have ih := toPatternElements_relocated hf declares elements
    rw [relocatedElements, relocatedOption, toPatternElements, toPatternElements, ih]
    cases toPatternElements declares elements <;> rfl
  | some e :: elements =>
    have ih := toPatternElements_relocated hf declares elements
    have he := e.toPattern_relocated hf declares
    cases hspread : e.isSpread with
    | false =>
      rw [relocatedElements, relocatedOption, toPatternElements_cons _ (by simpa using hspread),
        toPatternElements_cons _ hspread, ih, he]
      cases e.toPattern declares with
      | error e => rfl
      | ok p => cases toPatternElements declares elements <;> rfl
    | true =>
      cases e
      case spread loc argument =>
        have hargument := argument.toPattern_relocated hf declares
        rw [relocatedElements, relocatedOption, Expr.relocated, toPatternElements_spread,
          toPatternElements_spread, hargument, relocatedElements_eq_map, List.isEmpty_map]
        cases elements.isEmpty <;> cases argument.toPattern declares <;> rfl
      all_goals cases hspread

/-- Properties are read as those of a pattern before moving or after. -/
theorem toPatternProperties_relocated (hf : Function.Injective f) (declares : Bool)
    (properties : List Property) :
    toPatternProperties declares (relocatedProperties f properties)
      = relocated f (toPatternProperties declares properties) := by
  match properties with
  | [] => rfl
  | p :: properties =>
    have ih := toPatternProperties_relocated hf declares properties
    have hp := p.toPattern_relocated hf declares
    cases hspread : p.isSpread with
    | false =>
      rw [relocatedProperties, toPatternProperties_of_not_spread _ (by simpa using hspread),
        toPatternProperties_of_not_spread _ hspread, ih, hp]
      cases p.toPattern declares with
      | error e => rfl
      | ok p => cases toPatternProperties declares properties <;> rfl
    | true =>
      cases p
      case spread loc argument =>
        have hargument := argument.toPattern_relocated hf declares
        rw [relocatedProperties, Property.relocated, toPatternProperties_spread,
          toPatternProperties_spread, hargument, relocatedProperties_eq_map, List.isEmpty_map]
        cases properties.isEmpty <;> cases argument.toPattern declares <;> rfl
      all_goals cases hspread

/-- As `toPatternProperties_relocated`, for one property. -/
theorem Property.toPattern_relocated (hf : Function.Injective f) (declares : Bool)
    (p : Property) :
    (p.relocated f).toPattern declares = Relocatable.relocated f (p.toPattern declares) := by
  cases p with
  | value loc key value =>
    have hvalue := value.toPattern_relocated hf declares
    cases key with
    | ident key =>
      change (match coverDefault? (Relocatable.relocated f key) (value.relocated f) with
        | some right => _
        | none => _) = _
      rw [coverDefault?_relocated hf, Property.toPattern]
      cases coverDefault? key value with
      | some right => rfl
      | none =>
        rw [hvalue]
        cases value.toPattern declares <;> rfl
    | _ =>
      simp only [Property.relocated, Key.relocated, Property.toPattern, hvalue]
      cases value.toPattern declares <;> rfl
  | spread loc argument =>
    have hargument := argument.toPattern_relocated hf declares
    simp only [Property.relocated, Property.toPattern, hargument]
    cases argument.toPattern declares <;> rfl
  | shorthand loc key => cases key <;> rfl
  | method loc kind key value => rfl

end

/-- A spread is the rest of the parameters if nothing follows it. -/
theorem toParams_spread (loc : Span) (argument : Expr) (items : List Expr) :
    toParams (.spread loc argument :: items) =
      if items.isEmpty then (fun p => [.rest loc p]) <$> argument.toPattern true
      else .error ⟨.restParameterNotLast, loc.start⟩ := by
  rw [toParams]
  cases items.isEmpty <;> cases argument.toPattern true <;> rfl

/-- Any other item is a parameter. -/
theorem toParams_of_not_spread {e : Expr} (he : e.isSpread = false) (items : List Expr) :
    toParams (e :: items) = (do return (← e.toPattern true) :: (← toParams items)) := by
  cases e <;> first | rfl | cases he

/-- Items spell the same parameters wherever they stand. -/
theorem toParams_relocated (hf : Function.Injective f) (items : List Expr) :
    toParams (relocated f items) = relocated f (toParams items) := by
  induction items with
  | nil => rfl
  | cons e items ih =>
    have he := e.toPattern_relocated hf true
    change toParams (e.relocated f :: relocated f items) = _
    cases hspread : e.isSpread with
    | false =>
      rw [toParams_of_not_spread (by simpa using hspread), toParams_of_not_spread hspread, ih, he]
      cases e.toPattern true with
      | error e => rfl
      | ok p => cases toParams items <;> rfl
    | true =>
      cases e
      case spread loc argument =>
        have hargument := argument.toPattern_relocated hf true
        have hempty : (relocated f items).isEmpty = items.isEmpty := List.isEmpty_map
        rw [Expr.relocated, toParams_spread, toParams_spread, hargument, hempty]
        cases items.isEmpty <;> cases argument.toPattern true <;> rfl
      all_goals cases hspread

/-- An expression spells the same simple target wherever it stands. -/
theorem Expr.toSimpleTarget_relocated (hf : Function.Injective f) (e : Expr) :
    (e.relocated f).toSimpleTarget = Relocatable.relocated f e.toSimpleTarget := by
  simp only [toSimpleTarget, unparenthesized_relocated, isSimpleTarget_relocated,
    toPattern_relocated hf, loc_relocated]
  split <;> rfl

end WithScope
