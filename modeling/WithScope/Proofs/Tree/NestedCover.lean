import WithScope.Proofs.Token.Session
import WithScope.Proofs.Tree.Located

/-!
# Patterns stand where the expressions stood

An expression that is read again as a pattern keeps its places, except that parentheses are left
out: the pattern is nested, and stands inside of the span of the expression. If the expression
spells no pattern, the fault shows at the start of one of the constructs in it.
-/

namespace WithScope

variable {source : List Char}

/-- A conversion gives something with the property `Q`, or a fault at a place of the text that is not
one of a token. -/
def Converts (source : List Char) {α : Type} (x : Except SyntaxError α) (Q : α → Prop) : Prop :=
  match x with
  | .ok a => Q a
  | .error e => e.Raised source

namespace Converts

variable {α β : Type} {x : Except SyntaxError α} {P : α → Prop} {Q : β → Prop}

theorem bind {f : α → Except SyntaxError β} (hx : Converts source x P)
    (hf : ∀ a, P a → Converts source (f a) Q) : Converts source (x >>= f) Q := by
  cases x with
  | error e => exact hx
  | ok a => exact hf a hx

theorem map {f : α → β} (hx : Converts source x fun a => Q (f a)) : Converts source (f <$> x) Q := by
  cases x with
  | error e => exact hx
  | ok a => exact hx

theorem mono {P' : α → Prop} (hx : Converts source x P) (h : ∀ a, P a → P' a) :
    Converts source x P' := by
  cases x with
  | error e => exact hx
  | ok a => exact h a hx

end Converts

/-- A default value that is kept as an assignment stands after the name that it is for. -/
theorem Row.of_coverDefault {key : Ident} {value right : Expr} {lo hi : Nat}
    (h : Row source lo hi [.expr value]) (hright : coverDefault? key value = some right) :
    Row source lo hi [.ident key, .expr right] := by
  unfold coverDefault? at hright
  split at hright
  · split at hright
    · next id _ hid =>
      cases hright
      obtain ⟨hname, hvalue⟩ := Row.of_cons h.inner
      have hkey : Row source lo id.loc.stop.offset [.ident key] :=
        hname.replaced hid.symm (.nil _ _)
      exact h.inner.cons_of_replaced hkey hvalue
    · cases hright
  · cases hright

/-- A value that stands after its key is no default value. -/
theorem Row.coverDefault_eq_none {key : Ident} {value : Expr} {lo hi : Nat}
    (h : Row source lo hi [.ident key, .expr value]) : coverDefault? key value = none := by
  unfold coverDefault?
  split
  · next loc _ id right =>
    rw [if_neg]
    intro hid
    obtain ⟨hkey, hvalue⟩ := Row.of_cons h
    have hname := (hvalue.inner.within (.pat (.ident id)) (List.mem_cons_self ..)).1
    have := (hkey.nested _ (List.mem_singleton_self _)).start_lt_stop
    rw [show (Located.pat (.ident id)).loc = key.loc from hid] at hname
    simp only [Located.loc] at hname this
    omega
  · rfl

/-- A key is kept once more for a default value only. -/
theorem exists_coverDefault {key : Ident} {value : Expr}
    (h : Located.repeatsKey key value = true) : ∃ right, coverDefault? key value = some right := by
  unfold Located.repeatsKey at h
  split at h
  · next right =>
    obtain rfl := of_decide_eq_true h
    exact ⟨right, if_pos rfl⟩
  · cases h

/-- A property is what its key and its value are. -/
theorem Row.property {loc : Span} {key : Key} {value : Expr} {lo hi : Nat}
    (h : Row source lo hi [key.located, .expr value]) :
    Row source lo hi (Located.property (.value loc key value)).children := by
  cases key
  case ident key =>
    simp only [Located.children, Located.propertyChildren]
    split
    · next hrepeats =>
      obtain ⟨right, hright⟩ := exists_coverDefault hrepeats
      cases hright.symm.trans (coverDefault_eq_none h)
    · exact h
  all_goals exact h

mutual

/-- The pattern that an expression spells stands inside of the expression. -/
theorem Expr.nested_toPattern (declares : Bool) (e : Expr) {lo hi : Nat}
    (h : Row source lo hi [.expr e]) :
    Converts source (e.toPattern declares) fun p => Row source lo hi [.pat p] := by
  have hplace : IsPlace source e.loc.start := h.isPlace_start (List.mem_singleton_self _)
  cases e
  case ident id => exact h.replaced rfl (.nil _ _)
  case array loc elements =>
    rw [Expr.toPattern]
    refine .map ((nested_toPatternElements declares elements h.children).mono fun ps hps => ?_)
    exact h.replaced rfl hps
  case object loc properties =>
    rw [Expr.toPattern]
    refine .map ((nested_toPatternProperties declares properties h.children).mono fun ps hps => ?_)
    exact h.replaced rfl hps
  case assign loc op left right =>
    cases op
    case assign =>
      rw [Expr.toPattern]
      split
      · exact ⟨hplace, nofun⟩
      · exact h.replaced rfl h.children
    all_goals cases declares <;> exact ⟨hplace, nofun⟩
  case member loc object property isOptional =>
    cases declares <;> cases isOptional <;> try exact ⟨hplace, nofun⟩
    exact h.replaced rfl (.singleton (h.nested _ (List.mem_singleton_self _)) le_rfl le_rfl)
  case paren loc inner =>
    cases declares
    case true => exact ⟨hplace, nofun⟩
    case false =>
      have hinner := inner.nested_toPattern false h.inner
      cases inner <;> first | exact hinner | exact ⟨hplace, nofun⟩
  all_goals cases declares <;> exact ⟨hplace, nofun⟩

theorem nested_toPatternElements (declares : Bool) (elements : List (Option Expr)) {lo hi : Nat}
    (h : Row source lo hi (elements.filterMap fun e => e.map .expr)) :
    Converts source (toPatternElements declares elements) fun ps =>
      Row source lo hi (ps.filterMap fun p => p.map .pat) := by
  match elements with
  | [] => exact .nil _ _
  | none :: elements =>
    rw [toPatternElements]
    exact .bind (nested_toPatternElements declares elements h) fun ps hps => hps
  | some e :: elements =>
    obtain ⟨he, helements⟩ := Row.of_cons h
    unfold toPatternElements
    split
    case h_1 heq => cases heq
    case h_2 heq => cases heq
    case h_3 loc argument _ heq =>
      cases heq
      dsimp only
      split
      · exact ⟨h.isPlace_start (List.mem_cons_self ..), nofun⟩
      · refine .bind (argument.nested_toPattern declares he.children) fun p hp => ?_
        exact h.head.replaced rfl hp
    case h_4 heq =>
      cases heq
      refine .bind (e.nested_toPattern declares he) fun p hp => ?_
      refine .bind (nested_toPatternElements declares elements helements) fun ps hps => ?_
      exact h.cons_of_replaced hp hps

theorem nested_toPatternProperties (declares : Bool) (properties : List Property) {lo hi : Nat}
    (h : Row source lo hi (properties.map .property)) :
    Converts source (toPatternProperties declares properties) fun ps =>
      Row source lo hi (ps.map .patProperty) := by
  match properties with
  | [] => exact .nil _ _
  | property :: properties =>
    obtain ⟨hproperty, hproperties⟩ := Row.of_cons h
    unfold toPatternProperties
    split
    case h_1 heq => cases heq
    case h_2 loc argument _ heq =>
      cases heq
      dsimp only
      split
      · exact ⟨h.isPlace_start (List.mem_cons_self ..), nofun⟩
      · refine .bind (argument.nested_toPattern declares hproperty.children) fun p hp => ?_
        exact h.head.replaced rfl hp
    case h_3 heq =>
      cases heq
      refine .bind (property.nested_toPattern declares hproperty) fun p hp => ?_
      refine .bind (nested_toPatternProperties declares properties hproperties) fun ps hps => ?_
      exact h.cons_of_replaced hp hps

theorem Property.nested_toPattern (declares : Bool) (property : Property) {lo hi : Nat}
    (h : Row source lo hi [.property property]) :
    Converts source (property.toPattern declares) fun p => Row source lo hi [.patProperty p] := by
  have hplace : IsPlace source property.loc.start := h.isPlace_start (List.mem_singleton_self _)
  cases property with
  | shorthand loc key =>
    cases key
    case ident => exact h.replaced rfl h.children
    all_goals exact ⟨hplace, nofun⟩
  | method loc kind key f => exact ⟨hplace, nofun⟩
  | spread loc argument =>
    exact .map ((argument.nested_toPattern declares h.children).mono fun p hp => h.replaced rfl hp)
  | value loc key value =>
    cases key
    case ident key =>
      rw [Property.toPattern]
      have hchildren := h.children
      simp only [Located.children, Located.propertyChildren] at hchildren
      split at hchildren
      · next hrepeats =>
        -- the name and the default value are what the assignment holds
        obtain ⟨right, hright⟩ := exists_coverDefault hrepeats
        simp only [hright]
        exact h.replaced rfl (hchildren.of_coverDefault hright)
      · simp only [hchildren.coverDefault_eq_none]
        obtain ⟨hkey, hvalue⟩ := Row.of_cons hchildren
        refine .map ((value.nested_toPattern declares hvalue).mono fun p hp => ?_)
        exact h.replaced rfl (hchildren.cons_of_replaced hkey hp)
    all_goals
      have hchildren := h.children
      obtain ⟨hkey, hvalue⟩ := Row.of_cons hchildren
      refine .map ((value.nested_toPattern declares hvalue).mono fun p hp => ?_)
      exact h.replaced rfl (hchildren.cons_of_replaced hkey hp)

end

/-- The parameters that the items of a parenthesized list spell stand in the place of the items. -/
theorem nested_toParams (items : List Expr) {lo hi : Nat}
    (h : Row source lo hi (items.map .expr)) :
    Converts source (toParams items) fun ps => Row source lo hi (ps.map .pat) := by
  induction items generalizing lo with
  | nil => exact .nil _ _
  | cons e items ih =>
    obtain ⟨he, hitems⟩ := Row.of_cons h
    unfold toParams
    split
    case h_1 heq => cases heq
    case h_2 loc argument _ heq =>
      cases heq
      dsimp only
      split
      · exact ⟨h.isPlace_start (List.mem_cons_self ..), nofun⟩
      · refine .bind (argument.nested_toPattern true he.children) fun p hp => ?_
        exact h.head.replaced rfl hp
    case h_3 heq =>
      cases heq
      refine .bind (e.nested_toPattern true he) fun p hp => ?_
      exact .bind (ih hitems) fun ps hps => h.cons_of_replaced hp hps

/-- An expression stands inside of the parentheses around it. -/
theorem Row.unparenthesized {e : Expr} {lo hi : Nat} (h : Row source lo hi [.expr e]) :
    Row source lo hi [.expr e.unparenthesized] := by
  cases e
  case paren loc inner =>
    rw [Expr.unparenthesized]
    exact Row.unparenthesized (e := inner) h.inner
  all_goals exact h

theorem Expr.nested_toSimpleTarget {e : Expr} {lo hi : Nat} (h : Row source lo hi [.expr e]) :
    Converts source e.toSimpleTarget fun p => Row source lo hi [.pat p] := by
  unfold toSimpleTarget
  split
  · exact e.nested_toPattern false h
  · exact ⟨h.unparenthesized.isPlace_start (List.mem_singleton_self _), nofun⟩

/-! ## Names in patterns -/

mutual

/-- A name that a pattern binds begins at a place of the text. -/
theorem Pat.isPlace_find (name : String) (p : Pat) {lo hi : Nat} (h : Row source lo hi [.pat p]) :
    ∀ place ∈ p.find? name, IsPlace source place := by
  cases p with
  | ident id =>
    intro place hplace
    rw [Pat.find?] at hplace
    split at hplace <;> cases hplace
    exact h.isPlace_start (List.mem_singleton_self _)
  | expr target => exact fun _ hplace => by cases hplace
  | array loc elements => exact isPlace_findElement name elements h.children
  | object loc properties => exact isPlace_findProperty name properties h.children
  | rest loc argument => exact argument.isPlace_find name h.children
  | assign loc left right => exact left.isPlace_find name h.children.head

theorem PatProperty.isPlace_find (name : String) (p : PatProperty) {lo hi : Nat}
    (h : Row source lo hi [.patProperty p]) : ∀ place ∈ p.find? name, IsPlace source place := by
  cases p with
  | keyValue loc key value => exact value.isPlace_find name (Row.of_cons h.children).2
  | shorthand loc id value =>
    intro place hplace
    rw [PatProperty.find?] at hplace
    split at hplace <;> cases hplace
    exact h.children.isPlace_start (List.mem_cons_self ..)
  | rest loc argument => exact argument.isPlace_find name h.children

theorem isPlace_findElement (name : String) (elements : List (Option Pat)) {lo hi : Nat}
    (h : Row source lo hi (elements.filterMap fun p => p.map .pat)) :
    ∀ place ∈ findElement? name elements, IsPlace source place := by
  match elements with
  | [] => exact fun _ hplace => by cases hplace
  | none :: elements => exact isPlace_findElement name elements h
  | some p :: elements =>
    intro place hplace
    obtain ⟨hp, helements⟩ := Row.of_cons h
    rcases Option.or_eq_some_iff.1 hplace with hplace | ⟨-, hplace⟩
    · exact p.isPlace_find name hp place hplace
    · exact isPlace_findElement name elements helements place hplace

theorem isPlace_findProperty (name : String) (properties : List PatProperty) {lo hi : Nat}
    (h : Row source lo hi (properties.map .patProperty)) :
    ∀ place ∈ findProperty? name properties, IsPlace source place := by
  match properties with
  | [] => exact fun _ hplace => by cases hplace
  | p :: properties =>
    intro place hplace
    obtain ⟨hp, hproperties⟩ := Row.of_cons h
    rcases Option.or_eq_some_iff.1 hplace with hplace | ⟨-, hplace⟩
    · exact p.isPlace_find name hp place hplace
    · exact isPlace_findProperty name properties hproperties place hplace

end

end WithScope
