import GraphSql.TriplePattern

namespace GraphSql

-- Filters and graph patterns. A filter always has a variable, and the filters of a graph pattern
-- differ by more than the case of language tags.

inductive FilterSides where
  | variableNode (left : Variable) (right : Node)
  | nodeVariable (left : Node) (right : Variable)
  | variablePair (left right : Variable)
deriving DecidableEq

namespace FilterSides

def left : FilterSides → NodePattern
  | .variableNode v _ => .variable v
  | .nodeVariable n _ => .node n
  | .variablePair v _ => .variable v

def right : FilterSides → NodePattern
  | .variableNode _ n => .node n
  | .nodeVariable _ v => .variable v
  | .variablePair _ v => .variable v

def names : FilterSides → List Variable
  | .variableNode v _ => [v]
  | .nodeVariable _ v => [v]
  | .variablePair v w => [v, w]

def folded : FilterSides → FilterSides
  | .variableNode v n => .variableNode v n.folded
  | .nodeVariable n v => .nodeVariable n.folded v
  | .variablePair v w => .variablePair v w

end FilterSides

structure Filter where
  sides : FilterSides
  operator : String
  trimmed : Text.trim operator = operator
deriving DecidableEq

structure ConstantFilter where
  left : Node
  right : Node
deriving DecidableEq

def ConstantFilter.message (e : ConstantFilter) : String :=
  "Filters must contain a variable; neither " ++ e.left.display ++ " nor " ++ e.right.display ++
    " is a variable"

namespace Filter

def ofSides (sides : FilterSides) (operator : String) : Filter :=
  ⟨sides, Text.trim operator, Text.trim_trim operator⟩

def make (left : NodePattern) (operator : String) (right : NodePattern) :
    Except ConstantFilter Filter :=
  match left, right with
  | .variable v, .node n => .ok (ofSides (.variableNode v n) operator)
  | .node n, .variable v => .ok (ofSides (.nodeVariable n v) operator)
  | .variable v, .variable w => .ok (ofSides (.variablePair v w) operator)
  | .node n, .node m => .error ⟨n, m⟩

def left (f : Filter) : NodePattern := f.sides.left

def right (f : Filter) : NodePattern := f.sides.right

def vars (f : Filter) : List Variable := f.sides.names

def display (f : Filter) : String :=
  "FILTER(" ++ f.left.display ++ " " ++ f.operator ++ " " ++ f.right.display ++ ")"

def folded (f : Filter) : Filter := { f with sides := f.sides.folded }

def Same (a b : Filter) : Prop := a.folded = b.folded

instance (a b : Filter) : Decidable (Same a b) := inferInstanceAs (Decidable (_ = _))

end Filter

structure GraphPattern where
  triples : List TriplePattern
  filters : List Filter
  apart : filters.Pairwise fun a b => ¬ a.Same b
deriving DecidableEq

namespace GraphPattern

def empty : GraphPattern := ⟨[], [], .nil⟩

instance : Inhabited GraphPattern := ⟨empty⟩

def addTriple (p : GraphPattern) (t : TriplePattern) : GraphPattern :=
  { p with triples := p.triples ++ [t] }

def addFilter (p : GraphPattern) (f : Filter) : GraphPattern :=
  if known : ∃ g ∈ p.filters, g.Same f then p
  else
    { p with
      filters := p.filters ++ [f]
      apart := by
        rw [List.pairwise_append]
        refine ⟨p.apart, List.pairwise_singleton _ _, ?_⟩
        intro g member h single same
        cases List.mem_singleton.mp single
        exact known ⟨g, member, same⟩ }

theorem triples_foldl_addFilter (p : GraphPattern) (filters : List Filter) :
    (filters.foldl addFilter p).triples = p.triples := by
  induction filters generalizing p with
  | nil => rfl
  | cons f rest ih =>
    rw [List.foldl_cons, ih, addFilter]
    split <;> rfl

theorem filters_foldl_addFilter (p : GraphPattern) (filters : List Filter)
    (apart : (p.filters ++ filters).Pairwise fun a b => ¬ a.Same b) :
    (filters.foldl addFilter p).filters = p.filters ++ filters := by
  induction filters generalizing p with
  | nil => simp
  | cons f rest ih =>
    have fresh : ¬ ∃ g ∈ p.filters, g.Same f := by
      rintro ⟨g, member, same⟩
      exact (List.pairwise_append.mp apart).2.2 g member f (by simp) same
    have added : (p.addFilter f).filters = p.filters ++ [f] := by
      rw [addFilter, dif_neg fresh]
    rw [List.foldl_cons, ih, added, List.append_assoc]
    · rfl
    · rw [added, List.append_assoc]
      exact apart

def display (p : GraphPattern) : String :=
  "\x7b" ++ String.join (p.triples.map (" " ++ ·.display)) ++
    String.join (p.filters.map (" " ++ ·.display)) ++ " \x7d"

end GraphPattern

-- Queries: required elements, all of which must match, and optional elements, which extend a match
-- where they can. An element is a graph pattern or a query of its own.

inductive Part where
  | required
  | optional
deriving DecidableEq

def Part.name : Part → String
  | .required => "required"
  | .optional => "optional"

inductive Element where
  | pattern (p : GraphPattern)
  | subquery (required optional : List Element)

structure Query where
  required : List Element
  optional : List Element

namespace Element

def kind : Element → String
  | .pattern _ => "graph pattern"
  | .subquery _ _ => "graph query"

mutual

def display : Element → String
  | .pattern p => p.display
  | .subquery required optional =>
    "\x7b" ++ displayEach " " required ++ displayEach " OPTIONAL " optional ++ " \x7d"

def displayEach (lead : String) : List Element → String
  | [] => ""
  | e :: rest => lead ++ e.display ++ displayEach lead rest

end

end Element

namespace Query

def isEmpty (q : Query) : Bool := q.required.isEmpty && q.optional.isEmpty

def display (q : Query) : String := (Element.subquery q.required q.optional).display

end Query

end GraphSql
