import WithScope.Proofs.Text.Place
import WithScope.Syntax.Cover

/-!
# Where the nodes of a tree stand to each other

A `Located` is a construct of a program that has a span: names, literals and the parts of module
declarations as well as expressions, patterns and statements. What has no span of its own, such as a
key, is the construct that it holds.

* `Located.children` — what stands directly inside of a construct, in the order of the text. A name
  that is kept twice stands there once;
* `Located.Nested` — constructs are inside of what holds them, one after the other, at places of the
  text;
* `Row` — constructs that are nested and stand one after the other, between two offsets.
-/

namespace WithScope

/-- A construct of a program that has a span. -/
inductive Located
  | ident (id : Ident)
  | privateName (name : PrivateName)
  | string (lit : StringLit)
  | number (lit : NumberLit)
  | quasi (q : Quasi)
  | expr (e : Expr)
  | template (t : Template)
  | property (p : Property)
  | function (f : Func)
  | class (c : Class)
  /-- what stands in the braces of a class, the braces included -/
  | classBody (loc : Span) (members : List Member)
  | member (m : Member)
  | pat (p : Pat)
  | patProperty (p : PatProperty)
  | block (b : Block)
  | varDecl (d : VarDecl)
  | declarator (d : Declarator)
  | switchCase (c : SwitchCase)
  | catchClause (c : CatchClause)
  | importSpecifier (s : ImportSpecifier)
  | exportSpecifier (s : ExportSpecifier)
  | importAttribute (a : ImportAttribute)
  | module (d : ModuleDecl)
  | stmt (s : Stmt)

/-- One of two lists and the other by turns. -/
def interleave {α : Type} : List α → List α → List α
  | [], bs => bs
  | a :: as, bs => a :: match bs with
    | [] => as
    | b :: bs => b :: interleave as bs

theorem interleave_concat {α : Type} {as bs : List α} (h : as.length = bs.length) (a : α) :
    interleave (as ++ [a]) bs = interleave as bs ++ [a] := by
  induction as generalizing bs with
  | nil =>
    obtain rfl : bs = [] := List.eq_nil_of_length_eq_zero h.symm
    rfl
  | cons c as ih =>
    cases bs with
    | nil => cases h
    | cons b bs => simp [interleave, ih (Nat.succ.inj h)]

theorem interleave_concat_concat {α : Type} {as bs : List α} (h : as.length = bs.length) (a b : α) :
    interleave (as ++ [a]) (bs ++ [b]) = interleave as bs ++ [a, b] := by
  induction as generalizing bs with
  | nil =>
    obtain rfl : bs = [] := List.eq_nil_of_length_eq_zero h.symm
    rfl
  | cons c as ih =>
    cases bs with
    | nil => cases h
    | cons d bs => simp [interleave, ih (Nat.succ.inj h)]

/-! ## What has no span of its own -/

/-- A key, which is what it holds. -/
def Key.located : Key → Located
  | .ident id => .ident id
  | .privateName name => .privateName name
  | .string lit => .string lit
  | .number lit => .number lit
  | .computed e => .expr e

/-- What stands after the point, or in the brackets, of a member access. -/
def MemberName.located : MemberName → Located
  | .ident id => .ident id
  | .privateName name => .privateName name
  | .computed e => .expr e

/-- A name that a module exports or imports. -/
def ModuleName.located : ModuleName → Located
  | .ident id => .ident id
  | .string lit => .string lit

/-- The body of an arrow function. -/
def ArrowBody.located : ArrowBody → Located
  | .block b => .block b
  | .expr e => .expr e

/-- What a `for` loop begins with. -/
def ForInit.located : ForInit → Located
  | .decl d => .varDecl d
  | .expr e => .expr e

/-- What a loop over values assigns to. -/
def ForTarget.located : ForTarget → Located
  | .decl d => .varDecl d
  | .pat p => .pat p

/-- What is exported by default. -/
def DefaultExport.located : DefaultExport → Located
  | .function f => .function f
  | .class c => .class c
  | .expr e => .expr e

/-! ## Spans -/

/-- Where a property stands. -/
def Property.loc : Property → Span
  | .value loc _ _ | .shorthand loc _ | .method loc _ _ _ | .spread loc _ => loc

/-- Where an element of a class stands. -/
def Member.loc : Member → Span
  | .method loc _ _ _ _ | .field loc _ _ _ | .staticBlock loc _ => loc

/-- Where a property of an object pattern stands. -/
def PatProperty.loc : PatProperty → Span
  | .keyValue loc _ _ | .shorthand loc _ _ | .rest loc _ => loc

/-- Where a name bound by an import stands. -/
def ImportSpecifier.loc : ImportSpecifier → Span
  | .named loc _ _ | .default loc _ | .namespace loc _ => loc

namespace Located

/-- Where a construct stands. -/
def loc : Located → Span
  | .ident id => id.loc
  | .privateName name => name.loc
  | .string lit => lit.loc
  | .number lit => lit.loc
  | .quasi q => q.loc
  | .expr e => e.loc
  | .template t => t.loc
  | .property p => p.loc
  | .function f => f.loc
  | .class c => c.loc
  | .classBody loc _ => loc
  | .member m => m.loc
  | .pat p => p.loc
  | .patProperty p => p.loc
  | .block b => b.loc
  | .varDecl d => d.loc
  | .declarator (.mk loc _ _) => loc
  | .switchCase (.mk loc _ _) => loc
  | .catchClause (.mk loc _ _) => loc
  | .importSpecifier s => s.loc
  | .exportSpecifier s => s.loc
  | .importAttribute a => a.loc
  | .module d => d.loc
  | .stmt s => s.loc

/-! ## Children -/

/-- What stands directly inside of an expression. -/
def exprChildren : Expr → List Located
  | .null _ | .bool .. | .number _ | .string _ | .bigInt .. | .regExp .. | .ident _ | .this _
  | .super _ => []
  | .template t => [.template t]
  | .array _ elements => elements.filterMap fun e => e.map .expr
  | .object _ properties => properties.map .property
  | .paren _ e => [.expr e]
  | .function f => [.function f]
  | .arrow _ _ params body => params.map .pat ++ [body.located]
  | .class c => [.class c]
  | .unary _ _ argument | .update _ _ _ argument | .spread _ argument | .await _ argument =>
    [.expr argument]
  | .binary _ _ left right | .logical _ _ left right => [.expr left, .expr right]
  | .conditional _ test consequent alternate => [.expr test, .expr consequent, .expr alternate]
  | .assign _ _ left right => [.pat left, .expr right]
  | .sequence _ items => items.map .expr
  | .member _ e name _ => [.expr e, name.located]
  | .call _ callee arguments _ | .new _ callee arguments => .expr callee :: arguments.map .expr
  | .taggedTemplate _ tag t => [.expr tag, .template t]
  | .yield _ _ argument => argument.toList.map .expr
  | .importCall _ source options => .expr source :: options.toList.map .expr
  | .metaProperty _ word name => [.ident word, .ident name]
  | .privateIn _ name right => [.privateName name, .expr right]

/-- Whether the key of a property is kept once more, as the name that its value assigns to. -/
def repeatsKey (key : Ident) : Expr → Bool
  | .assign _ _ (.ident id) _ => id = key
  | _ => false

/-- What stands directly inside of a property. A default value is kept as `a: a = 1`, whose first
name is the second one. -/
def propertyChildren : Property → List Located
  | .value _ (.ident key) value =>
    if repeatsKey key value then [.expr value] else [.ident key, .expr value]
  | .value _ key value => [key.located, .expr value]
  | .shorthand _ key => [key.located]
  | .method _ _ key f => [key.located, .function f]
  | .spread _ argument => [.expr argument]

/-- What stands directly inside of an element of a class. -/
def memberChildren : Member → List Located
  | .method _ _ _ key f => [key.located, .function f]
  | .field _ _ key value => key.located :: value.toList.map .expr
  | .staticBlock _ body => body.map .stmt

/-- What stands directly inside of a pattern. -/
def patChildren : Pat → List Located
  | .ident _ => []
  | .array _ elements => elements.filterMap fun p => p.map .pat
  | .object _ properties => properties.map .patProperty
  | .rest _ argument => [.pat argument]
  | .assign _ left right => [.pat left, .expr right]
  | .expr target => [.expr target]

/-- What stands directly inside of a property of an object pattern. -/
def patPropertyChildren : PatProperty → List Located
  | .keyValue _ key value => [key.located, .pat value]
  | .shorthand _ id value => .ident id :: value.toList.map .expr
  | .rest _ argument => [.pat argument]

/-- What stands directly inside of an import or export. -/
def moduleChildren : ModuleDecl → List Located
  | .importFrom _ specifiers source attributes =>
    specifiers.map .importSpecifier ++ .string source :: attributes.map .importAttribute
  | .exportNamed _ specifiers source declaration attributes =>
    declaration.toList.map .stmt ++ specifiers.map .exportSpecifier ++ source.toList.map .string
      ++ attributes.map .importAttribute
  | .exportDefault _ value => [value.located]
  | .exportAll _ exported source attributes =>
    exported.toList.map ModuleName.located ++ .string source :: attributes.map .importAttribute

/-- What stands directly inside of a statement. -/
def stmtChildren : Stmt → List Located
  | .block b => [.block b]
  | .varDecl d => [.varDecl d]
  | .function f => [.function f]
  | .class c => [.class c]
  | .expr _ e | .throw _ e => [.expr e]
  | .if _ test consequent alternate =>
    .expr test :: .stmt consequent :: alternate.toList.map .stmt
  | .for _ init test update body =>
    init.toList.map ForInit.located ++ test.toList.map .expr ++ update.toList.map .expr
      ++ [.stmt body]
  | .forIn _ left right body | .forOf _ _ left right body =>
    [left.located, .expr right, .stmt body]
  | .while _ test body | .with _ test body => [.expr test, .stmt body]
  | .doWhile _ body test => [.stmt body, .expr test]
  | .switch _ discriminant cases => .expr discriminant :: cases.map .switchCase
  | .try _ body handler finalizer =>
    .block body :: (handler.toList.map .catchClause ++ finalizer.toList.map .block)
  | .return _ argument => argument.toList.map .expr
  | .break _ label | .continue _ label => label.toList.map .ident
  | .labeled _ label body => [.ident label, .stmt body]
  | .debugger _ | .empty _ => []
  | .module d => [.module d]

/-- What stands directly inside of a construct, in the order of the text. The one name of an import
or export without `as` stands there once. -/
def children : Located → List Located
  | .ident _ | .privateName _ | .string _ | .number _ | .quasi _ => []
  | .expr e => exprChildren e
  | .template (.mk _ quasis items) => interleave (quasis.map .quasi) (items.map .expr)
  | .property p => propertyChildren p
  | .function (.mk _ id _ _ params body) =>
    id.toList.map .ident ++ params.map .pat ++ [.block body]
  | .class (.mk _ id superClass bodyLoc members) =>
    id.toList.map .ident ++ superClass.toList.map .expr ++ [.classBody bodyLoc members]
  | .classBody _ members => members.map .member
  | .member m => memberChildren m
  | .pat p => patChildren p
  | .patProperty p => patPropertyChildren p
  | .block b => b.body.map .stmt
  | .varDecl (.mk _ _ declarators) => declarators.map .declarator
  | .declarator (.mk _ id value) => .pat id :: value.toList.map .expr
  | .switchCase (.mk _ test consequent) => test.toList.map .expr ++ consequent.map .stmt
  | .catchClause (.mk _ param body) => param.toList.map .pat ++ [.block body]
  | .importSpecifier (.named _ imported localName) =>
    if imported = .ident localName then [.ident localName]
    else [imported.located, .ident localName]
  | .importSpecifier (.default _ localName) | .importSpecifier (.namespace _ localName) =>
    [.ident localName]
  | .exportSpecifier ⟨_, localName, exported⟩ =>
    if localName = exported then [localName.located]
    else [localName.located, exported.located]
  | .importAttribute ⟨_, key, value⟩ => [key.located, .string value]
  | .module d => moduleChildren d
  | .stmt s => stmtChildren s

end Located

/-! ## Nesting -/

/-- One construct ends before another begins. -/
def Located.Precedes (a b : Located) : Prop := a.loc.stop.offset ≤ b.loc.start.offset

/-- A construct, and whatever it holds, is not empty, begins and ends at places of the text, and has
what is directly inside of it between its own ends, one after the other. -/
inductive Located.Nested (source : List Char) : Located → Prop
  | intro {n : Located} (start : IsPlace source n.loc.start) (stop : IsPlace source n.loc.stop)
      (nonempty : n.loc.start.offset < n.loc.stop.offset)
      (within : ∀ c ∈ n.children, n.loc.start.offset ≤ c.loc.start.offset ∧
        c.loc.stop.offset ≤ n.loc.stop.offset)
      (ordered : n.children.Pairwise Located.Precedes)
      (below : ∀ c ∈ n.children, c.Nested source) : n.Nested source

/-- Constructs that are nested and stand one after the other, between two offsets. -/
structure Row (source : List Char) (lo hi : Nat) (ns : List Located) : Prop where
  /-- each of them is nested -/
  nested : ∀ n ∈ ns, n.Nested source
  /-- each of them stands between the offsets -/
  within : ∀ n ∈ ns, lo ≤ n.loc.start.offset ∧ n.loc.stop.offset ≤ hi
  /-- each ends before the next begins -/
  ordered : ns.Pairwise Located.Precedes

variable {source : List Char}

namespace Located.Nested

variable {n : Located} (h : n.Nested source)
include h

theorem isPlace_start : IsPlace source n.loc.start := by
  obtain ⟨start, -, -, -, -, -⟩ := h
  exact start

theorem isPlace_stop : IsPlace source n.loc.stop := by
  obtain ⟨-, stop, -, -, -, -⟩ := h
  exact stop

theorem start_lt_stop : n.loc.start.offset < n.loc.stop.offset := by
  obtain ⟨-, -, nonempty, -, -, -⟩ := h
  exact nonempty

/-- What a construct holds is a row between its ends. -/
theorem row : Row source n.loc.start.offset n.loc.stop.offset n.children := by
  obtain ⟨-, -, -, within, ordered, below⟩ := h
  exact ⟨below, within, ordered⟩

end Located.Nested

/-- A construct that holds a row between its ends is nested. -/
theorem Row.nested_intro {n : Located} {lo hi : Nat} (hrow : Row source lo hi n.children)
    (start : IsPlace source n.loc.start) (stop : IsPlace source n.loc.stop)
    (hlo : n.loc.start.offset = lo) (hhi : n.loc.stop.offset = hi) (hlt : lo < hi) :
    n.Nested source := by
  subst hlo hhi
  exact .intro start stop hlt hrow.within hrow.ordered hrow.nested

namespace Row

variable {n : Located} {lo mid hi : Nat} {ns ms : List Located}

@[simp] theorem nil (lo hi : Nat) : Row source lo hi [] :=
  ⟨List.forall_mem_nil _, List.forall_mem_nil _, .nil⟩

theorem singleton (h : n.Nested source) (hlo : lo ≤ n.loc.start.offset)
    (hhi : n.loc.stop.offset ≤ hi) : Row source lo hi [n] :=
  ⟨by simpa using h, by simpa using ⟨hlo, hhi⟩, List.pairwise_singleton _ _⟩

theorem weaken {lo' hi' : Nat} (h : Row source lo hi ns) (hlo : lo' ≤ lo) (hhi : hi ≤ hi') :
    Row source lo' hi' ns :=
  ⟨h.nested, fun n hn => ⟨hlo.trans (h.within n hn).1, (h.within n hn).2.trans hhi⟩, h.ordered⟩

theorem sublist (h : Row source lo hi ns) (hsub : ms.Sublist ns) : Row source lo hi ms :=
  ⟨fun n hn => h.nested n (hsub.subset hn), fun n hn => h.within n (hsub.subset hn),
    h.ordered.sublist hsub⟩

/-- A row may be followed by one that begins where it ends. -/
theorem append (hns : Row source lo mid ns) (hms : Row source mid hi ms) (hlo : lo ≤ mid)
    (hhi : mid ≤ hi) : Row source lo hi (ns ++ ms) := by
  refine ⟨List.forall_mem_append.2 ⟨hns.nested, hms.nested⟩,
    List.forall_mem_append.2 ⟨(hns.weaken le_rfl hhi).within, (hms.weaken hlo le_rfl).within⟩,
    List.pairwise_append.2 ⟨hns.ordered, hms.ordered, fun n hn m hm => ?_⟩⟩
  exact (hns.within n hn).2.trans (hms.within m hm).1

/-- The first of a row, and the others after it. -/
theorem of_cons (h : Row source lo hi (n :: ns)) :
    Row source lo n.loc.stop.offset [n] ∧ Row source n.loc.stop.offset hi ns := by
  obtain ⟨hn, hns⟩ := List.forall_mem_cons.1 h.nested
  obtain ⟨hwithin, hwithins⟩ := List.forall_mem_cons.1 h.within
  obtain ⟨hprecedes, hordered⟩ := List.pairwise_cons.1 h.ordered
  exact ⟨.singleton hn hwithin.1 le_rfl,
    hns, fun m hm => ⟨hprecedes m hm, (hwithins m hm).2⟩, hordered⟩

/-- A row may stand in place of its first construct. -/
theorem cons_of_replaced (h : Row source lo hi (n :: ns))
    (hms : Row source lo n.loc.stop.offset ms) {ns' : List Located}
    (hns' : Row source n.loc.stop.offset hi ns') : Row source lo hi (ms ++ ns') := by
  obtain ⟨hn, hhi⟩ := h.within n (List.mem_cons_self ..)
  have := (h.nested n (List.mem_cons_self ..)).start_lt_stop
  exact hms.append hns' (by omega) hhi

theorem head (h : Row source lo hi (n :: ns)) : Row source lo hi [n] :=
  h.sublist (List.cons_sublist_cons.2 (List.nil_sublist ns))

/-- A row that is not empty takes up some of the text. -/
theorem lt_of_ne_nil (h : Row source lo hi ns) (hne : ns ≠ []) : lo < hi := by
  obtain ⟨n, hn⟩ := List.exists_mem_of_ne_nil ns hne
  obtain ⟨hlo, hhi⟩ := h.within n hn
  have := (h.nested n hn).start_lt_stop
  omega

/-- A row may be cut in front of one of its constructs. -/
theorem of_append_cons (h : Row source lo hi (ns ++ n :: ms)) :
    Row source lo n.loc.start.offset ns ∧ Row source n.loc.start.offset hi (n :: ms) := by
  obtain ⟨hns, hms, hprecedes⟩ := List.pairwise_append.1 h.ordered
  have hmem (m : Located) (hm : m ∈ n :: ms) : m ∈ ns ++ n :: ms := List.mem_append_right _ hm
  refine ⟨⟨fun m hm => h.nested m (List.mem_append_left _ hm), fun m hm => ?_, hns⟩,
    ⟨fun m hm => h.nested m (hmem m hm), fun m hm => ⟨?_, (h.within m (hmem m hm)).2⟩, hms⟩⟩
  · exact ⟨(h.within m (List.mem_append_left _ hm)).1, hprecedes m hm n (List.mem_cons_self ..)⟩
  · rcases List.mem_cons.1 hm with rfl | hm
    · exact le_rfl
    · have := (h.nested n (hmem n (List.mem_cons_self ..))).start_lt_stop
      exact this.le.trans ((List.pairwise_cons.1 hms).1 m hm)

/-- A row goes from the start of its first construct to the end of its last. -/
theorem tighten {last : Located} (h : Row source lo hi (n :: ns)) (hlast : (n :: ns).getLast? = last) :
    Row source n.loc.start.offset last.loc.stop.offset (n :: ns) := by
  obtain ⟨init, hinit⟩ := List.getLast?_eq_some_iff.1 hlast
  have hcut : Row source lo hi ([] ++ n :: ns) := h
  have hstart := hcut.of_append_cons.2
  rw [hinit] at hstart ⊢
  refine ⟨hstart.nested, fun m hm => ⟨(hstart.within m hm).1, ?_⟩, hstart.ordered⟩
  rcases List.mem_append.1 hm with hm | hm
  · have hprecedes := (List.pairwise_append.1 hstart.ordered).2.2 m hm last (List.mem_singleton_self _)
    have := (hstart.nested last (by simp)).start_lt_stop
    exact hprecedes.trans this.le
  · rw [List.mem_singleton.1 hm]

/-- A construct may be given other children, in the place of its own. -/
theorem replaced {m : Located} (h : Row source lo hi [n]) (hloc : m.loc = n.loc)
    (hrow : Row source n.loc.start.offset n.loc.stop.offset m.children) :
    Row source lo hi [m] := by
  have hn := h.nested n (List.mem_singleton_self n)
  obtain ⟨hlo, hhi⟩ := h.within n (List.mem_singleton_self n)
  rw [← hloc] at hrow hlo hhi
  refine .singleton (hrow.nested_intro ?_ ?_ rfl rfl ?_) hlo hhi <;> rw [hloc]
  · exact hn.isPlace_start
  · exact hn.isPlace_stop
  · exact hn.start_lt_stop

/-- What a construct in a row holds is a row. -/
theorem children (h : Row source lo hi [n]) :
    Row source n.loc.start.offset n.loc.stop.offset n.children :=
  (h.nested n (List.mem_singleton_self n)).row

/-- What a construct in a row holds is a row between the same offsets. -/
theorem inner (h : Row source lo hi [n]) :
    Row source lo hi n.children :=
  have hn := h.within n (List.mem_singleton_self n)
  h.children.weaken hn.1 hn.2

theorem isPlace_start (h : Row source lo hi ns) (hn : n ∈ ns) :
    IsPlace source n.loc.start := (h.nested n hn).isPlace_start

end Row

end WithScope
