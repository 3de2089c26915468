import GraphSql.Document
import GraphSql.Proofs.NTriples.Codec

namespace GraphSql

-- Documents can say every query of graph patterns: written with the texts of its terms, the query
-- is read back as it is.

theorem Variable.toList_display (v : Variable) : v.display.toList = '?' :: v.name.toList := by
  simp [display]

theorem Variable.ofText_display (v : Variable) : ofText v.display = .ok v := by
  have bare : bareName v.display = v.name := by
    rw [bareName, v.toList_display]
    exact String.ofList_toList
  have valid : bareName v.display ≠ "" ∧ (bareName v.display).toList.all Text.isNameChar = true := by
    rw [bare]
    exact v.valid
  rw [ofText, dif_pos valid]
  simp only [bare]

theorem NodePattern.ofText_display (p : NodePattern) : ofText p.display = .ok p := by
  cases p with
  | «variable» v =>
    rw [display, ofText, v.toList_display]
    simp only [v.ofText_display]
    rfl
  | node n =>
    have read := NTriples.readNode_display n
    rw [display, ofText]
    split
    next rest start =>
      rw [start] at read
      cases read
    next =>
      rw [read]
      rfl

theorem PredicatePattern.ofText_display (p : PredicatePattern) : ofText p.display = .ok p := by
  cases p with
  | «variable» v =>
    rw [display, ofText, v.toList_display]
    simp only [v.ofText_display]
    rfl
  | iri i =>
    have read := NTriples.readIri_display i
    rw [display, ofText]
    split
    next rest start =>
      rw [start] at read
      cases read
    next =>
      rw [read]
      rfl

theorem Filter.make_sides (f : Filter) : make f.left f.operator f.right = .ok f := by
  obtain ⟨sides, operator, trimmed⟩ := f
  cases sides <;> simp [make, ofSides, left, right, FilterSides.left, FilterSides.right, trimmed]

def TriplePattern.texts (t : TriplePattern) : Triplet :=
  ⟨t.subject.display, t.predicate.display, t.object.display⟩

def Filter.texts (f : Filter) : Triplet := ⟨f.left.display, f.operator, f.right.display⟩

def GraphPattern.spec (p : GraphPattern) : PatternSpec :=
  ⟨p.triples.map TriplePattern.texts, p.filters.map Filter.texts⟩

theorem TriplePattern.ofTexts_texts (t : TriplePattern) :
    ofTexts t.texts.first t.texts.second t.texts.third = .ok t := by
  simp only [ofTexts, texts, NodePattern.ofText_display, PredicatePattern.ofText_display]
  rfl

namespace Document

theorem addTriples_texts (fail : TermSyntaxError → DocumentError) (p : GraphPattern)
    (triples : List TriplePattern) :
    addTriples fail p (triples.map TriplePattern.texts) =
      .ok { p with triples := p.triples ++ triples } := by
  induction triples generalizing p with
  | nil => rw [List.append_nil]; rfl
  | cons t rest ih =>
    rw [List.map_cons, addTriples, t.ofTexts_texts]
    exact (ih (p.addTriple t)).trans (by simp [GraphPattern.addTriple])

theorem addFilters_texts (fail : TermSyntaxError → DocumentError)
    (refuse : ConstantFilter → DocumentError) (p : GraphPattern) (filters : List Filter) :
    addFilters fail refuse p (filters.map Filter.texts) =
      .ok (filters.foldl GraphPattern.addFilter p) := by
  induction filters generalizing p with
  | nil => rfl
  | cons f rest ih =>
    simp only [List.map_cons, addFilters, Filter.texts, NodePattern.ofText_display, f.make_sides,
      mapError_of_ok, ok_bind]
    exact ih (p.addFilter f)

-- The filters of a pattern differ, so that none is lost when they are added one by one.
theorem buildPattern_spec (part : Part) (index : Nat) (p : GraphPattern) :
    buildPattern part index p.spec = .ok p := by
  have triples := addTriples_texts (.term part index) .empty p.triples
  have filters := addFilters_texts (.term part index) (.filter part index)
    { GraphPattern.empty with triples := p.triples } p.filters
  have whole : p.filters.foldl GraphPattern.addFilter
      { GraphPattern.empty with triples := p.triples } = p := by
    have first := GraphPattern.triples_foldl_addFilter
      { GraphPattern.empty with triples := p.triples } p.filters
    have second := GraphPattern.filters_foldl_addFilter
      { GraphPattern.empty with triples := p.triples } p.filters p.apart
    generalize p.filters.foldl GraphPattern.addFilter _ = built at first second
    obtain ⟨builtTriples, builtFilters, apart⟩ := built
    cases first
    cases second
    rfl
  rw [buildPattern, GraphPattern.spec, triples]
  exact filters.trans (by rw [whole])

theorem buildPart_spec (part : Part) (index : Nat) (patterns : List GraphPattern) :
    buildPart part index (patterns.map GraphPattern.spec) = .ok (patterns.map .pattern) := by
  induction patterns generalizing index with
  | nil => rfl
  | cons p rest ih =>
    simp only [List.map_cons, buildPart, buildPattern_spec, ih]
    rfl

theorem toQuery_spec (targets : List String) (order : Option OrderSpec)
    (required optional : List GraphPattern) :
    toQuery ⟨targets, order, required.map GraphPattern.spec, optional.map GraphPattern.spec⟩ =
      .ok ⟨required.map .pattern, optional.map .pattern⟩ := by
  simp only [toQuery, buildPart_spec]
  rfl

end Document

end GraphSql
